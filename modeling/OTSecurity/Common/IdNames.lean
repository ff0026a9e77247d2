import OTSecurity.Common.Ids
import OTSecurity.Lib.Digits
import OTSecurity.Lib.Joined

/-!
# The names of identifiers

The joined names of `lib/sih_common/ids.py` for the arguments that the program passes, as Python strings: an
entity key comes from the traffic and may hold any character, the separator and lone surrogates among them.

* `Plain` — a sensor id, a UUID, a hash or a member of an enumeration; `Given` — one that may be null.
* `EventArgs`, … , `InvalidArgs` — the arguments of the six functions; `.name` — what they join.
* `FindingKey` — the key by which `build` of `flink/sih_detect/job.py` distributes findings to incidents.

Principal result: `names_injective` — a name determines its arguments.
-/

namespace OTS

def BAR : Nat := 0x7C

/-- `join_name`. -/
def joinText (parts : List (Option PyStr)) : PyStr := [BAR].intercalate (parts.map (·.getD []))

/-- A text without the separator. -/
abbrev Plain := {s : PyStr // BAR ∉ s}

/-- One that null is not joined like. -/
abbrev Given := {s : PyStr // BAR ∉ s ∧ s ≠ []}

/-- The arguments of `event_id`. -/
@[ext] structure EventArgs where
  sensorId : Plain
  bootId : Plain
  sequence : Int
  originalSha256 : Plain

def EventArgs.name (a : EventArgs) : PyStr :=
  joinText [some a.sensorId.1, some a.bootId.1, some (intText a.sequence), some a.originalSha256.1]

/-- The arguments of `incident_id`. -/
@[ext] structure IncidentArgs where
  threatClass : Plain
  entityType : Plain
  entityKey : PyStr
  incidentEpochMs : Int

def IncidentArgs.name (a : IncidentArgs) : PyStr :=
  joinText [some a.threatClass.1, some a.entityType.1, some a.entityKey, some (intText a.incidentEpochMs)]

/-- The arguments of `update_id`. -/
@[ext] structure UpdateArgs where
  incident : Plain
  updateSeq : Int

def UpdateArgs.name (a : UpdateArgs) : PyStr :=
  joinText [some a.incident.1, some (intText a.updateSeq)]

/-- The arguments of `alert_id`. -/
@[ext] structure AlertArgs where
  detector : Plain
  entityType : Plain
  entityKey : PyStr
  windowEndMs : Int
  subtype : Plain

def AlertArgs.name (a : AlertArgs) : PyStr :=
  joinText [some a.detector.1, some a.entityType.1, some a.entityKey, some (intText a.windowEndMs),
    some a.subtype.1]

/-- The arguments of `feature_record_id`. -/
@[ext] structure FeatureArgs where
  detector : Plain
  entityType : Plain
  entityKey : PyStr
  windowEndMs : Int

def FeatureArgs.name (a : FeatureArgs) : PyStr :=
  joinText [some a.detector.1, some a.entityType.1, some a.entityKey, some (intText a.windowEndMs)]

/-- The arguments of `invalid_id`. -/
@[ext] structure InvalidArgs where
  stage : Plain
  reason : Plain
  rawSha256 : Option Given
  sensorId : Option Given
  bootId : Option Given
  sequence : Option Int

def InvalidArgs.name (a : InvalidArgs) : PyStr :=
  joinText [some a.stage.1, some a.reason.1, a.rawSha256.map (·.1), a.sensorId.map (·.1), a.bootId.map (·.1),
    a.sequence.map intText]

/-- The key of a finding. -/
@[ext] structure FindingKey where
  threatClass : Plain
  entityType : Plain
  entityKey : PyStr

/-- `f"{threat_class}|{entity_type}|{entity_key}"`. -/
def FindingKey.text (k : FindingKey) : PyStr :=
  k.threatClass.1 ++ BAR :: (k.entityType.1 ++ BAR :: k.entityKey)

/-! ## Parts -/

theorem intText_injective : Function.Injective intText := fun _ _ h => Int.repr_injective (pyStr_inj h)

theorem intText_plain (n : Int) : BAR ∉ intText n := by
  intro h
  obtain ⟨c, hc, hbar⟩ := List.mem_map.1 h
  obtain rfl : c = '|' := Char.ext (UInt32.toNat_inj.1 hbar)
  exact int_repr_no_bar n hc

theorem intText_ne_nil (n : Int) : intText n ≠ [] := by
  intro h
  have hlen := congrArg List.length h
  cases n with
  | ofNat m =>
    obtain ⟨c, rest, htext, -⟩ := natText_head m
    rw [Int.ofNat_eq_natCast, intText_natCast, htext] at h
    cases h
  | negSucc m =>
    have htext : intText (.negSucc m) = pyStr ("-" ++ (m + 1).repr) := rfl
    rw [htext, pyStr_length, String.length_append] at hlen
    exact absurd hlen (Nat.ne_of_gt (Nat.add_pos_left (by decide) _))

/-- The name of an identifier is that of its parts. -/
theorem pyStr_joinName (parts : List (Option String)) :
    pyStr (joinName parts) = joinText (parts.map (·.map pyStr)) := by
  have hjoin : ∀ texts : List String, pyStr ("|".intercalate texts) = [BAR].intercalate (texts.map pyStr) := by
    intro texts
    induction texts with
    | nil => rfl
    | cons s texts ih =>
      by_cases hnil : texts = []
      · subst hnil
        rw [String.intercalate_singleton, List.map_singleton, List.intercalate_singleton]
      · rw [String.intercalate_cons_of_ne_nil hnil, pyStr_append, pyStr_append, ih, List.map_cons,
          intercalate_cons (by simpa using hnil), List.append_assoc]
        rfl
  unfold joinName joinText
  rw [hjoin, List.map_map, List.map_map]
  congr 1
  refine List.map_congr_left fun part _ => ?_
  cases part <;> rfl

/-- What may be null. -/
theorem given_inj {a b : Option Given} (h : (a.map (·.1)).getD [] = (b.map (·.1)).getD []) : a = b := by
  cases a with
  | none =>
    cases b with
    | none => rfl
    | some b => exact absurd h.symm b.2.2
  | some a =>
    cases b with
    | none => exact absurd h a.2.2
    | some b => exact congrArg some (Subtype.ext h)

theorem given_plain (a : Option Given) : BAR ∉ (a.map (·.1)).getD [] := by
  cases a with
  | none => exact List.not_mem_nil
  | some a => exact a.2.1

theorem sequence_inj {a b : Option Int} (h : (a.map intText).getD [] = (b.map intText).getD []) : a = b := by
  cases a with
  | none =>
    cases b with
    | none => rfl
    | some b => exact absurd h.symm (intText_ne_nil b)
  | some a =>
    cases b with
    | none => exact absurd h (intText_ne_nil a)
    | some b => exact congrArg some (intText_injective h)

/-! ## Names -/

/-- Names of some fields without the separator before and after one part that may have it. -/
theorem joinText_inj {A : Type} (front : A → List (Option PyStr)) (key : A → Option PyStr)
    (back : A → List (Option PyStr)) (hfree : ∀ a, ∀ x ∈ front a ++ back a, BAR ∉ x.getD []) (a b : A)
    (hfront : (front a).length = (front b).length) (hback : (back a).length = (back b).length)
    (h : joinText (front a ++ key a :: back a) = joinText (front b ++ key b :: back b)) :
    (front a).map (·.getD []) = (front b).map (·.getD []) ∧ (key a).getD [] = (key b).getD [] ∧
      (back a).map (·.getD []) = (back b).map (·.getD []) := by
  have hparts : ∀ a, ∀ x ∈ (front a).map (·.getD []) ++ (back a).map (·.getD []), BAR ∉ x := by
    intro a
    rw [← List.map_append, List.forall_mem_map]
    exact hfree a
  unfold joinText at h
  rw [List.map_append, List.map_append, List.map_cons, List.map_cons] at h
  exact fields_inj (by simpa using hfront) (by simpa using hback) (hparts a) (hparts b) h

theorem EventArgs.name_injective : Function.Injective EventArgs.name := by
  intro a b h
  obtain ⟨hfront, hsha, -⟩ := joinText_inj
    (fun a : EventArgs => [some a.sensorId.1, some a.bootId.1, some (intText a.sequence)])
    (fun a => some a.originalSha256.1) (fun _ => [])
    (fun a => by simp [a.sensorId.2, a.bootId.2, intText_plain]) a b rfl rfl h
  simp only [List.map_cons, List.map_nil, Option.getD_some, List.cons.injEq, and_true] at hfront hsha
  obtain ⟨hsensor, hboot, hsequence⟩ := hfront
  exact EventArgs.ext (Subtype.ext hsensor) (Subtype.ext hboot) (intText_injective hsequence) (Subtype.ext hsha)

theorem IncidentArgs.name_injective : Function.Injective IncidentArgs.name := by
  intro a b h
  obtain ⟨hfront, hkey, hback⟩ := joinText_inj
    (fun a : IncidentArgs => [some a.threatClass.1, some a.entityType.1]) (fun a => some a.entityKey)
    (fun a => [some (intText a.incidentEpochMs)])
    (fun a => by simp [a.threatClass.2, a.entityType.2, intText_plain]) a b rfl rfl h
  simp only [List.map_cons, List.map_nil, Option.getD_some, List.cons.injEq, and_true] at hfront hkey hback
  exact IncidentArgs.ext (Subtype.ext hfront.1) (Subtype.ext hfront.2) hkey (intText_injective hback)

theorem UpdateArgs.name_injective : Function.Injective UpdateArgs.name := by
  intro a b h
  obtain ⟨-, hincident, hback⟩ := joinText_inj (fun _ : UpdateArgs => []) (fun a => some a.incident.1)
    (fun a => [some (intText a.updateSeq)]) (fun a => by simp [intText_plain]) a b rfl rfl h
  simp only [List.map_cons, List.map_nil, Option.getD_some, List.cons.injEq, and_true] at hincident hback
  exact UpdateArgs.ext (Subtype.ext hincident) (intText_injective hback)

theorem AlertArgs.name_injective : Function.Injective AlertArgs.name := by
  intro a b h
  obtain ⟨hfront, hkey, hback⟩ := joinText_inj
    (fun a : AlertArgs => [some a.detector.1, some a.entityType.1]) (fun a => some a.entityKey)
    (fun a => [some (intText a.windowEndMs), some a.subtype.1])
    (fun a => by simp [a.detector.2, a.entityType.2, a.subtype.2, intText_plain]) a b rfl rfl h
  simp only [List.map_cons, List.map_nil, Option.getD_some, List.cons.injEq, and_true] at hfront hkey hback
  exact AlertArgs.ext (Subtype.ext hfront.1) (Subtype.ext hfront.2) hkey (intText_injective hback.1)
    (Subtype.ext hback.2)

theorem FeatureArgs.name_injective : Function.Injective FeatureArgs.name := by
  intro a b h
  obtain ⟨hfront, hkey, hback⟩ := joinText_inj
    (fun a : FeatureArgs => [some a.detector.1, some a.entityType.1]) (fun a => some a.entityKey)
    (fun a => [some (intText a.windowEndMs)])
    (fun a => by simp [a.detector.2, a.entityType.2, intText_plain]) a b rfl rfl h
  simp only [List.map_cons, List.map_nil, Option.getD_some, List.cons.injEq, and_true] at hfront hkey hback
  exact FeatureArgs.ext (Subtype.ext hfront.1) (Subtype.ext hfront.2) hkey (intText_injective hback)

theorem InvalidArgs.name_injective : Function.Injective InvalidArgs.name := by
  intro a b h
  have hfree : ∀ a : InvalidArgs, ∀ x ∈ [some a.stage.1, some a.reason.1, a.rawSha256.map (·.1),
      a.sensorId.map (·.1), a.bootId.map (·.1)] ++ [], BAR ∉ x.getD [] := by
    intro a
    simp only [List.append_nil, List.forall_mem_cons]
    exact ⟨a.stage.2, a.reason.2, given_plain _, given_plain _, given_plain _, List.forall_mem_nil _⟩
  obtain ⟨hfront, hsequence, -⟩ := joinText_inj _ (fun a : InvalidArgs => a.sequence.map intText) (fun _ => [])
    hfree a b rfl rfl h
  simp only [List.map_cons, List.map_nil, Option.getD_some, List.cons.injEq, and_true] at hfront
  obtain ⟨hstage, hreason, hsha, hsensor, hboot⟩ := hfront
  exact InvalidArgs.ext (Subtype.ext hstage) (Subtype.ext hreason) (given_inj hsha) (given_inj hsensor)
    (given_inj hboot) (sequence_inj hsequence)

theorem FindingKey.text_injective : Function.Injective FindingKey.text := by
  intro a b h
  obtain ⟨hclass, hrest⟩ := append_sep_inj a.threatClass.2 b.threatClass.2 h
  obtain ⟨htype, hkey⟩ := append_sep_inj a.entityType.2 b.entityType.2 hrest
  exact FindingKey.ext (Subtype.ext hclass) (Subtype.ext htype) hkey

/-- **A name determines the arguments of its function**, and the key of a finding its parts. -/
theorem names_injective :
    Function.Injective EventArgs.name ∧ Function.Injective IncidentArgs.name ∧
    Function.Injective UpdateArgs.name ∧ Function.Injective AlertArgs.name ∧
    Function.Injective FeatureArgs.name ∧ Function.Injective InvalidArgs.name ∧
    Function.Injective FindingKey.text :=
  ⟨EventArgs.name_injective, IncidentArgs.name_injective, UpdateArgs.name_injective, AlertArgs.name_injective,
    FeatureArgs.name_injective, InvalidArgs.name_injective, FindingKey.text_injective⟩

end OTS
