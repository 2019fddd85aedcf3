import Mathlib.Data.List.Nodup
import ForkReplay.Proofs.HexText
import ForkReplay.Proofs.JsonText
import ForkReplay.Replay.Outcome
import ForkReplay.Replay.Response

/-!
# Wire forms

Outcomes, responses and heads are written as JSON objects. Each is read back from what
was written, and also from an object with the same members in another order and with
members of other names among them. A member that is null may be missing.
-/

namespace ForkReplay

namespace Json

/-- The members of an object. -/
def members : Json → List (String × Json)
  | .object members => members
  | _ => []

/-- The names of the members of an object. -/
def names (json : Json) : List String := json.members.map Prod.fst

def isNull : Json → Bool
  | .null => true
  | _ => false

/-- The members of an object that are not null. -/
def presentMembers (json : Json) : List (String × Json) :=
  json.members.filter fun entry => !entry.2.isNull

/-- An object that has the given members in some order, among any others that have none
of the known names. -/
inductive Carries (known : List String) (members : List (String × Json)) : Json → Prop where
  | object {others shuffled : List (String × Json)} (hothers : ∀ entry ∈ others, entry.1 ∉ known)
      (hperm : shuffled.Perm (members ++ others)) : Carries known members (.object shuffled)

variable {known : List String} {members : List (String × Json)} {name : String}

theorem lookup_eq_none (h : ∀ entry ∈ members, entry.1 ≠ name) : lookup name members = none := by
  induction members with
  | nil => rfl
  | cons entry members ih =>
      rw [List.forall_mem_cons] at h
      rw [lookup, if_neg h.1, ih h.2]

/-- Entries of one name in a list with distinct names are the same. -/
theorem snd_eq_of_nodup (hnames : (members.map Prod.fst).Nodup) {entry other : String × Json}
    (hentry : entry ∈ members) (hother : other ∈ members) (hname : entry.1 = other.1) :
    entry.2 = other.2 :=
  congrArg Prod.snd (List.inj_on_of_nodup_map hnames hentry hother hname)

theorem lookup_eq_some {value : Json} (hmem : (name, value) ∈ members)
    (honly : ∀ entry ∈ members, entry.1 = name → entry.2 = value) :
    lookup name members = some value := by
  induction members with
  | nil => simp at hmem
  | cons entry members ih =>
      rw [List.forall_mem_cons] at honly
      by_cases hname : entry.1 = name
      · rw [lookup, if_pos hname, honly.1 hname]
      · rw [lookup, if_neg hname]
        refine ih ?_ honly.2
        rcases List.mem_cons.mp hmem with rfl | hmem
        · exact absurd rfl hname
        · exact hmem

theorem lookup_of_nodup (hnames : (members.map Prod.fst).Nodup) {entry : String × Json}
    (hentry : entry ∈ members) : lookup entry.1 members = some entry.2 :=
  lookup_eq_some hentry fun _ hother hname => snd_eq_of_nodup hnames hother hentry hname

theorem mem_of_lookup_eq_some {value : Json} (h : lookup name members = some value) :
    (name, value) ∈ members := by
  induction members with
  | nil => cases h
  | cons entry members ih =>
      rw [lookup] at h
      split at h
      next hname =>
        cases h
        subst hname
        exact List.mem_cons_self
      next => exact List.mem_cons_of_mem _ (ih h)

/-- What an object carries is found in it by the known names. -/
theorem member?_of_carries (hnames : (members.map Prod.fst).Nodup) {json : Json}
    (h : Carries known members json) (hknown : name ∈ known) :
    json.member? name = lookup name members := by
  obtain @⟨others, shuffled, hothers, hperm⟩ := h
  change lookup name shuffled = lookup name members
  -- Any entry of that name is one of the members, for the others are called otherwise.
  have hcarried : ∀ entry ∈ shuffled, entry.1 = name → entry ∈ members := by
    intro entry hentry hname
    rcases List.mem_append.mp (hperm.mem_iff.mp hentry) with hmember | hother
    · exact hmember
    · exact absurd (hname ▸ hknown) (hothers entry hother)
  cases hlookup : lookup name members with
  | none =>
      refine lookup_eq_none fun entry hentry hname => ?_
      have hfound := lookup_of_nodup hnames (hcarried entry hentry hname)
      rw [hname, hlookup] at hfound
      cases hfound
  | some value =>
      have hmember := mem_of_lookup_eq_some hlookup
      refine lookup_eq_some (hperm.mem_iff.mpr (List.mem_append_left _ hmember)) ?_
      intro entry hentry hname
      exact snd_eq_of_nodup hnames (hcarried entry hentry hname) hmember hname

end Json

open Json

/-- A value is read from an object, and from the text of it. -/
def ReadFrom {α : Type} (ofJson? : Json → Option α) (value : α) (json : Json) : Prop :=
  ofJson? json = some value ∧
    (json.Tidy maxLevels → parse? (compact json) >>= ofJson? = some value)

/-- What is written of a value stands for it: the value is read back from the text, and
from any object that carries what was written, nulls aside. -/
structure StandsFor {α : Type} (ofJson? : Json → Option α) (written : Json) (value : α) :
    Prop where
  text : parse? (compact written) >>= ofJson? = some value
  carried : ∀ json, Carries written.names written.members json → ReadFrom ofJson? value json
  present : ∀ json, Carries written.names written.presentMembers json →
    ReadFrom ofJson? value json

theorem readFrom_of_ofJson? {α : Type} {ofJson? : Json → Option α} {value : α} {json : Json}
    (h : ofJson? json = some value) : ReadFrom ofJson? value json := by
  refine ⟨h, fun htidy => ?_⟩
  rw [parse?_compact htidy]
  exact h

/-- Whether a JSON value answers to the names of all members with their values. Only null
may be missing. -/
def Answers (json : Json) (members : List (String × Json)) : Prop :=
  ∀ entry ∈ members, json.member? entry.1 = some entry.2 ∨
    entry.2.isNull = true ∧ json.member? entry.1 = none

theorem answers_of_carries {written json : Json} (hnames : written.names.Nodup)
    (h : Carries written.names written.members json) : Answers json written.members := by
  intro entry hentry
  rw [member?_of_carries hnames h (List.mem_map_of_mem hentry), lookup_of_nodup hnames hentry]
  exact .inl rfl

theorem answers_of_carries_present {written json : Json} (hnames : written.names.Nodup)
    (h : Carries written.names written.presentMembers json) : Answers json written.members := by
  have hpresent : (written.presentMembers.map Prod.fst).Nodup :=
    hnames.sublist (List.filter_sublist.map Prod.fst)
  intro entry hentry
  rw [member?_of_carries hpresent h (List.mem_map_of_mem hentry)]
  cases hnull : entry.2.isNull with
  | false =>
      refine .inl (lookup_of_nodup hpresent (List.mem_filter.mpr ⟨hentry, ?_⟩))
      rw [hnull]
      rfl
  | true =>
      refine .inr ⟨rfl, lookup_eq_none fun other hother hname => ?_⟩
      obtain ⟨hmember, hkept⟩ := List.mem_filter.mp hother
      rw [snd_eq_of_nodup hnames hmember hentry hname, hnull] at hkept
      cases hkept

/-- A tidy object stands for a value that is read from every object that answers to its
members. -/
theorem standsFor_of_answers {α : Type} {ofJson? : Json → Option α} {value : α}
    {members : List (String × Json)} (htidy : (Json.object members).Tidy maxLevels)
    (hread : ∀ all, Answers (.object all) members → ofJson? (.object all) = some value) :
    StandsFor ofJson? (.object members) value := by
  have hnames : (Json.object members).names.Nodup := by
    cases htidy with
    | object hnames hmembers => exact hnames
  refine ⟨?_, ?_, ?_⟩
  · rw [parse?_compact htidy]
    exact hread members fun entry hentry => .inl (lookup_of_nodup hnames hentry)
  · intro json h
    have hanswers := answers_of_carries hnames h
    cases h with
    | object hothers hperm => exact readFrom_of_ofJson? (hread _ hanswers)
  · intro json h
    have hanswers := answers_of_carries_present hnames h
    cases h with
    | object hothers hperm => exact readFrom_of_ofJson? (hread _ hanswers)

/-- A counter of 64 bits is in the range of a double. -/
theorem tidy_uint64 {levels : Nat} (value : UInt64) : (Json.nat value.toNat).Tidy levels :=
  have hrange : 2 ^ 64 < doubleLimit := by decide +kernel
  .int (value.toNat_lt.trans hrange)

theorem tidy_ofOption {α : Type} {levels : Nat} {encode : α → Json}
    (h : ∀ value, (encode value).Tidy levels) (value : Option α) :
    (Json.ofOption encode value).Tidy levels := by
  cases value with
  | none => exact .null
  | some value => exact h value

theorem isNull_nat (value : Nat) : (Json.nat value).isNull = false := rfl

theorem isNull_string (value : String) : (Json.string value).isNull = false := rfl

/-- An optional member is read, also if it is missing because it was null. -/
theorem optional?_of_answers {α : Type} {encode : α → Json} {read : Json → Option α}
    (hread : ∀ value, read (encode value) = some value) (hencode : ∀ value, encode value ≠ .null)
    {created : Option α} {found : Option Json}
    (h : found = some (Json.ofOption encode created) ∨
      (Json.ofOption encode created).isNull = true ∧ found = none) :
    Json.optional? read found = some created := by
  cases created with
  | none =>
      rcases h with rfl | ⟨-, rfl⟩
      · rfl
      · rfl
  | some value =>
      have hnull : (encode value).isNull = false := by
        have hne := hencode value
        cases hvalue : encode value with
        | null => exact absurd hvalue hne
        | _ => rfl
      rcases h with rfl | ⟨h, -⟩
      · rw [Json.ofOption, Json.optional?, hread]
        · rfl
        · exact hencode value
      · rw [Json.ofOption, hnull] at h
        cases h

namespace Outcome

theorem tidy_toJson (outcome : Outcome) : outcome.toJson.Tidy maxLevels := by
  cases outcome with
  | success gasUsed gasRefunded output created =>
      refine .object (by simp) ?_
      simp only [List.forall_mem_cons]
      exact ⟨.string _, tidy_uint64 _, tidy_uint64 _, .string _,
        tidy_ofOption (fun address => .string _) created, by simp⟩
  | revert gasUsed message =>
      refine .object (by simp) ?_
      simp only [List.forall_mem_cons]
      exact ⟨.string _, tidy_uint64 _, .string _, by simp⟩
  | halt gasUsed reason =>
      refine .object (by simp) ?_
      simp only [List.forall_mem_cons]
      exact ⟨.string _, tidy_uint64 _, .string _, by simp⟩

theorem standsFor_toJson (outcome : Outcome) :
    StandsFor Outcome.ofJson? outcome.toJson outcome := by
  cases outcome with
  | success gasUsed gasRefunded output created =>
      refine standsFor_of_answers (tidy_toJson (.success gasUsed gasRefunded output created)) ?_
      intro all hanswers
      simp only [Answers, List.forall_mem_cons, isNull_nat, isNull_string, Bool.false_eq_true,
        false_and, or_false] at hanswers
      obtain ⟨hstatus, hgasUsed, hgasRefunded, houtput, hcreated, -⟩ := hanswers
      have hcreated := optional?_of_answers address?_text (fun _ => Json.noConfusion) hcreated
      simp [ofJson?, ofObject?, hstatus, hgasUsed, hgasRefunded, houtput, hcreated, Json.string?,
        uint64?_nat, bytes?_ofBytes]
  | revert gasUsed message =>
      refine standsFor_of_answers (tidy_toJson (.revert gasUsed message)) ?_
      intro all hanswers
      simp only [Answers, List.forall_mem_cons, isNull_nat, isNull_string, Bool.false_eq_true,
        false_and, or_false] at hanswers
      obtain ⟨hstatus, hgasUsed, hmessage, -⟩ := hanswers
      simp [ofJson?, ofObject?, hstatus, hgasUsed, hmessage, Json.string?, uint64?_nat]
  | halt gasUsed reason =>
      refine standsFor_of_answers (tidy_toJson (.halt gasUsed reason)) ?_
      intro all hanswers
      simp only [Answers, List.forall_mem_cons, isNull_nat, isNull_string, Bool.false_eq_true,
        false_and, or_false] at hanswers
      obtain ⟨hstatus, hgasUsed, hreason, -⟩ := hanswers
      simp [ofJson?, ofObject?, hstatus, hgasUsed, hreason, Json.string?, uint64?_nat]

end Outcome

theorem Response.standsFor_toJson (response : Response) :
    StandsFor Response.ofJson? response.toJson response := by
  refine standsFor_of_answers (.object (by simp) ?_) ?_
  · simp only [List.forall_mem_cons]
    exact ⟨.string _, .string _, .string _, tidy_uint64 _, by simp⟩
  · intro all hanswers
    simp only [Answers, List.forall_mem_cons, isNull_nat, isNull_string, Bool.false_eq_true,
      false_and, or_false] at hanswers
    obtain ⟨hstatus, hmessage, hrevertText, hgasUsed, -⟩ := hanswers
    simp [ofJson?, hstatus, hmessage, hrevertText, hgasUsed, Json.string?, uint64?_nat]

theorem BlockInfo.standsFor_toJson (info : BlockInfo) :
    StandsFor BlockInfo.ofJson? info.toJson info := by
  refine standsFor_of_answers (.object (by simp) ?_) ?_
  · simp only [List.forall_mem_cons]
    exact ⟨tidy_uint64 _, tidy_uint64 _, by simp⟩
  · intro all hanswers
    simp only [Answers, List.forall_mem_cons, isNull_nat, Bool.false_eq_true, false_and,
      or_false] at hanswers
    obtain ⟨hnumber, htimestamp, -⟩ := hanswers
    simp [ofJson?, hnumber, htimestamp, uint64?_nat]

/-- Whatever is written of an outcome, a response or a head is read back as the same
value: from the text, and from any object that has its members in some order among others
of unknown names. Where no account was created, that member may be missing. -/
theorem wire_forms_read_back :
    (∀ outcome : Outcome, StandsFor Outcome.ofJson? outcome.toJson outcome) ∧
      (∀ response : Response, StandsFor Response.ofJson? response.toJson response) ∧
      ∀ info : BlockInfo, StandsFor BlockInfo.ofJson? info.toJson info :=
  ⟨Outcome.standsFor_toJson, Response.standsFor_toJson, BlockInfo.standsFor_toJson⟩

end ForkReplay
