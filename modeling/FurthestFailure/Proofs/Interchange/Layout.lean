import FurthestFailure.Interchange
import Mathlib.Data.List.Nodup

/-! # How fields may be laid out

The fields of a record, some of which may be left out, are laid out either by name, in any order and
among others, or as a list, where none may be missing, or only the last ones if the list may end early.
Reading the fields of a datum is the inverse of laying them out, if no record in it has two fields of one
name.
-/
namespace FurthestFailure
set_option autoImplicit false

namespace Datum
variable {fields : List (String × Datum)} {slots : List (String × Option Datum)} {d : Datum}
variable {mayEnd : Bool}

mutual

/-- No record has two fields of one name, at any depth. -/
def Distinct : Datum → Prop
  | list items => AllDistinct items
  | record fields => (fields.map Prod.fst).Nodup ∧ FieldsDistinct fields
  | null | bool _ | integer _ | fraction _ | text _ => True

def AllDistinct : List Datum → Prop
  | [] => True
  | d :: ds => d.Distinct ∧ AllDistinct ds

def FieldsDistinct : List (String × Datum) → Prop
  | [] => True
  | f :: fs => f.2.Distinct ∧ FieldsDistinct fs

end

theorem allDistinct_iff {ds : List Datum} : AllDistinct ds ↔ ∀ d ∈ ds, d.Distinct := by
  induction ds with
  | nil => simp [AllDistinct]
  | cons d ds ih => simp [AllDistinct, ih]

theorem fieldsDistinct_iff : FieldsDistinct fields ↔ ∀ f ∈ fields, f.2.Distinct := by
  induction fields with
  | nil => simp [FieldsDistinct]
  | cons f fs ih => simp [FieldsDistinct, ih]

/-- The fields that are there, with their names. -/
def present (slots : List (String × Option Datum)) : List (String × Datum) :=
  slots.filterMap fun s => s.2.map (s.1, ·)

@[simp] theorem mem_present {name : String} {part : Datum} :
    (name, part) ∈ present slots ↔ (name, some part) ∈ slots := by
  simp [present]

/-- The datum is a record of the fields that are there, in any order and among fields of other names, or
a list of all fields; one that may end early breaks off before the first of those that are missing. -/
inductive Lays (mayEnd : Bool) (slots : List (String × Option Datum)) : Datum → Prop
  | record {fields others : List (String × Datum)} (hfields : fields.Perm (present slots ++ others))
    (hothers : ∀ f ∈ others, f.1 ∉ slots.map Prod.fst) : Lays mayEnd slots (record fields)
  | list {items : List Datum} {missing : Nat} (hmissing : mayEnd ∨ missing = 0)
    (hitems : slots.map Prod.snd = items.map some ++ List.replicate missing none) :
    Lays mayEnd slots (list items)

theorem lays_present (mayEnd : Bool) (slots : List (String × Option Datum)) :
    (record (present slots)).Lays mayEnd slots := by
  apply @Lays.record mayEnd slots _ []
  · rw [List.append_nil]
  · simp

section lookup
variable {name : String} {part? : Option Datum}

theorem mem_of_lookup_eq_some {part : Datum} (h : fields.lookup name = some part) :
    (name, part) ∈ fields := by
  obtain ⟨front, back, rfl, -⟩ := List.lookup_eq_some_iff.mp h
  simp

theorem lookup_eq_of_mem_iff (h : ∀ part, (name, part) ∈ fields ↔ part? = some part) :
    fields.lookup name = part? := by
  cases hlookup : fields.lookup name with
  | none =>
    cases part? with
    | none => rfl
    | some part =>
      have hne := List.lookup_eq_none_iff.mp hlookup _ ((h part).mpr rfl)
      simp at hne
  | some part => exact ((h part).mp (mem_of_lookup_eq_some hlookup)).symm

theorem lookup_eq_some_iff_mem (hfields : (fields.map Prod.fst).Nodup) {part : Datum} :
    fields.lookup name = some part ↔ (name, part) ∈ fields := by
  constructor
  · exact mem_of_lookup_eq_some
  · intro h
    apply lookup_eq_of_mem_iff
    intro other
    constructor
    · intro hother
      have hsame := List.inj_on_of_nodup_map hfields h hother rfl
      simpa using congrArg Prod.snd hsame
    · rintro ⟨⟩
      exact h

end lookup

theorem fields?_record_iff :
    (record fields).fields? mayEnd (slots.map Prod.fst) = some (slots.map Prod.snd) ↔
      ∀ s ∈ slots, fields.lookup s.1 = s.2 := by
  simp [fields?]

theorem fields?_of_lays (h : d.Lays mayEnd slots) (hnames : (slots.map Prod.fst).Nodup) :
    d.fields? mayEnd (slots.map Prod.fst) = some (slots.map Prod.snd) := by
  cases h with
  | record hfields hothers =>
    rw [fields?_record_iff]
    rintro ⟨name, part?⟩ hs
    apply lookup_eq_of_mem_iff
    intro part
    have hname : (name, part) ∉ _ := fun hf => hothers _ hf (List.mem_map_of_mem hs)
    simp only [hfields.mem_iff, List.mem_append, hname, or_false, mem_present]
    constructor
    · intro hpart
      have hsame := List.inj_on_of_nodup_map hnames hs hpart rfl
      simpa using congrArg Prod.snd hsame
    · rintro rfl
      exact hs
  | @list items missing hmissing hitems =>
    have hlength := congrArg List.length hitems
    simp only [List.length_map, List.length_append, List.length_replicate] at hlength
    simp only [fields?, List.length_map]
    rw [if_pos ⟨by omega, hmissing.imp_right (by omega)⟩, hitems, hlength, Nat.add_sub_cancel_left]

theorem present_nodup (hnames : (slots.map Prod.fst).Nodup) : (present slots).Nodup := by
  refine List.Nodup.filterMap ?_ hnames.of_map
  rintro ⟨name, part?⟩ ⟨name', part?'⟩ f h h'
  simp only [Option.mem_def, Option.map_eq_some_iff] at h h'
  obtain ⟨part, rfl, rfl⟩ := h
  obtain ⟨part', rfl, heq⟩ := h'
  cases heq
  rfl

theorem lays_of_fields? (hd : d.Distinct) (hnames : (slots.map Prod.fst).Nodup)
    (h : d.fields? mayEnd (slots.map Prod.fst) = some (slots.map Prod.snd)) : d.Lays mayEnd slots := by
  cases d with
  | record fields =>
    rw [fields?_record_iff] at h
    let named (f : String × Datum) : Bool := f.1 ∈ slots.map Prod.fst
    have hnamed : (fields.filter named).Perm (present slots) := by
      rw [List.perm_ext_iff_of_nodup (hd.1.of_map.filter _) (present_nodup hnames)]
      rintro ⟨name, part⟩
      rw [mem_present, List.mem_filter, ← lookup_eq_some_iff_mem hd.1]
      constructor
      · rintro ⟨hlookup, hname⟩
        obtain ⟨s, hs, rfl⟩ := List.mem_map.mp (of_decide_eq_true hname)
        rw [← hlookup, h s hs]
        exact hs
      · intro hs
        exact ⟨h _ hs, decide_eq_true (List.mem_map_of_mem hs)⟩
    apply @Lays.record mayEnd slots fields (fields.filter fun f => !named f)
    · exact (List.filter_append_perm named fields).symm.trans (hnamed.append_right _)
    · intro f hf
      simpa [named] using (List.mem_filter.mp hf).2
  | list items =>
    rw [fields?] at h
    split at h
    · next hlength => exact .list (hlength.2.imp_right (by omega)) (Option.some.inj h).symm
    · cases h
  | _ => cases h

theorem Lays.distinct_part (h : d.Lays mayEnd slots) (hd : d.Distinct) {part : Datum}
    (hpart : some part ∈ slots.map Prod.snd) : part.Distinct := by
  cases h with
  | record hfields hothers =>
    obtain ⟨⟨name, part?⟩, hs, rfl⟩ := List.mem_map.mp hpart
    apply fieldsDistinct_iff.mp hd.2 (name, part)
    exact hfields.mem_iff.mpr (List.mem_append_left _ (mem_present.mpr hs))
  | list _ hitems =>
    rw [hitems] at hpart
    apply allDistinct_iff.mp hd
    simpa using hpart

end Datum
end FurthestFailure
