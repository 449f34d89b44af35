import FurthestFailure.Value
import Mathlib.Data.List.Pairwise

/-! # Values with markers that nest

A value is laid out between two places of a text if its markers are there, one within the other as
the values are, and one after the other as the items of its lists are. Values that are laid out one
behind the other make a list that is laid out, and a value in a marker makes one if the marker
reaches from the one place to the other.
-/
namespace FurthestFailure
set_option autoImplicit false

namespace Value

/-- The second value is the first one or somewhere in it. -/
inductive Holds : Value → Value → Prop
  | self (v : Value) : Holds v v
  | item {items : List Value} {v w : Value} (hv : v ∈ items) (h : Holds v w) : Holds (.list items) w
  | field {fields : List (String × Value)} {name : String} {v w : Value}
    (hv : (name, v) ∈ fields) (h : Holds v w) : Holds (.record fields) w
  | present {v w : Value} (h : Holds v w) : Holds (.present v) w
  | marked {v w : Value} {r : Range} (h : Holds v w) : Holds (.marked v r) w
  | named {v w : Value} {name : String} {r : Range} (h : Holds v w) : Holds (.named v name r) w

theorem Holds.trans {u v w : Value} (h : u.Holds v) (h' : v.Holds w) : u.Holds w := by
  induction h with
  | self => exact h'
  | item hv _ ih => exact .item hv (ih h')
  | field hv _ ih => exact .field hv (ih h')
  | present _ ih => exact .present (ih h')
  | marked _ ih => exact .marked (ih h')
  | named _ ih => exact .named (ih h')

/-- What a marker marks, and where it was read. -/
def marker? : Value → Option (Value × Range)
  | marked v r | named v _ r => some (v, r)
  | null | bool _ | number _ | text _ | list _ | record _ | present _ | position _ => none

/-- Somewhere in `v` is a marker of `w` with the range `r`. -/
def Marks (v w : Value) (r : Range) : Prop := ∃ m, v.Holds m ∧ m.marker? = some (w, r)

theorem Marks.of_holds {u v w : Value} {r : Range} (h : u.Holds v) : v.Marks w r → u.Marks w r := by
  rintro ⟨m, hm, hr⟩
  exact ⟨m, h.trans hm, hr⟩

/-- The value has no parts and marks nothing. -/
def IsAtom : Value → Prop
  | null | bool _ | number _ | text _ | position _ => True
  | list _ | record _ | present _ | marked _ _ | named _ _ _ => False

theorem IsAtom.not_marks {v w : Value} {r : Range} (h : v.IsAtom) : ¬ v.Marks w r := by
  rintro ⟨m, hm, hr⟩
  cases hm with
  | self => cases v <;> first | exact h | cases hr
  | _ => exact h

/-- Each marker in `v` ends no later than any marker in `w` begins. -/
def Before (v w : Value) : Prop :=
  ∀ x r, v.Marks x r → ∀ y r', w.Marks y r' → r.stop.index ≤ r'.start.index

end Value

/-- The range lies between two byte offsets. -/
structure Range.Between (r : Range) (low high : Nat) : Prop where
  low_le : low ≤ r.start.index
  start_le : r.start.index ≤ r.stop.index
  le_high : r.stop.index ≤ high

theorem Range.Between.mono {r : Range} {low high low' high' : Nat} (h : r.Between low high)
    (hlow : low' ≤ low) (hhigh : high ≤ high') : r.Between low' high' :=
  ⟨Nat.le_trans hlow h.low_le, h.start_le, Nat.le_trans h.le_high hhigh⟩

namespace Value

/-- All markers in the value are between the two offsets and are of the kind, those within a marker
are within its range, and those in an item of a list are before those in later items. -/
structure LaidOut (Made : Value → Prop) (low high : Nat) (v : Value) : Prop where
  between : ∀ w r, v.Marks w r → r.Between low high
  nested : ∀ w r, v.Marks w r → ∀ w' r', w.Marks w' r' → r'.Between r.start.index r.stop.index
  apart : ∀ items, v.Holds (.list items) → items.Pairwise Before
  made : ∀ m, v.Holds m → m.marker? ≠ none → Made m

/-- Values laid out one behind the other. -/
structure InRow (Made : Value → Prop) (low high : Nat) (vs : List Value) : Prop where
  laidOut : ∀ v ∈ vs, v.LaidOut Made low high
  apart : vs.Pairwise Before

variable {Made : Value → Prop} {low mid high low' high' : Nat} {v w m : Value} {r : Range}
variable {vs ws : List Value}

namespace LaidOut

theorem mono (h : v.LaidOut Made low high) (hlow : low' ≤ low) (hhigh : high ≤ high') :
    v.LaidOut Made low' high' :=
  { h with between := fun w r hr => (h.between w r hr).mono hlow hhigh }

theorem of_holds (h : v.LaidOut Made low high) (hw : v.Holds w) : w.LaidOut Made low high where
  between x r hr := h.between x r (hr.of_holds hw)
  nested x r hr := h.nested x r (hr.of_holds hw)
  apart items hitems := h.apart items (hw.trans hitems)
  made m hm := h.made m (hw.trans hm)

theorem of_unmarked (h : ∀ w r, ¬ v.Marks w r) : v.LaidOut Made low high where
  between w r hr := absurd hr (h w r)
  nested w r hr := absurd hr (h w r)
  apart items hitems := by
    refine List.pairwise_of_forall_mem_list fun x hx _ _ w r hr => ?_
    exact absurd (hr.of_holds (hitems.trans (.item hx (.self x)))) (h w r)
  made m hm hmarker := by
    obtain ⟨⟨w, r⟩, hr⟩ := Option.ne_none_iff_exists'.mp hmarker
    exact absurd ⟨m, hm, hr⟩ (h w r)

end LaidOut

theorem holds_list (h : (list vs).Holds w) : w = list vs ∨ ∃ v ∈ vs, v.Holds w := by
  cases h with
  | self => exact .inl rfl
  | item hv h => exact .inr ⟨_, hv, h⟩

theorem marks_list (h : (list vs).Marks w r) : ∃ v ∈ vs, v.Marks w r := by
  obtain ⟨m, hm, hr⟩ := h
  obtain rfl | ⟨v, hv, hm⟩ := holds_list hm
  · cases hr
  · exact ⟨v, hv, m, hm, hr⟩

theorem holds_present (h : (present v).Holds w) : w = present v ∨ v.Holds w := by
  cases h with
  | self => exact .inl rfl
  | present h => exact .inr h

theorem marks_present (h : (present v).Marks w r) : v.Marks w r := by
  obtain ⟨m, hm, hr⟩ := h
  obtain rfl | hm := holds_present hm
  · cases hr
  · exact ⟨m, hm, hr⟩

theorem holds_marker (hm : m.marker? = some (v, r)) (h : m.Holds w) : w = m ∨ v.Holds w := by
  cases h with
  | self => exact .inl rfl
  | marked h | named h =>
    cases hm
    exact .inr h
  | item | field | present => cases hm

namespace LaidOut

theorem list (h : InRow Made low high vs) : (Value.list vs).LaidOut Made low high where
  between w r hr := by
    obtain ⟨v, hv, hr⟩ := marks_list hr
    exact (h.laidOut v hv).between w r hr
  nested w r hr := by
    obtain ⟨v, hv, hr⟩ := marks_list hr
    exact (h.laidOut v hv).nested w r hr
  apart items hitems := by
    obtain hitems | ⟨v, hv, hitems⟩ := holds_list hitems
    · cases hitems
      exact h.apart
    · exact (h.laidOut v hv).apart items hitems
  made m hm hmarker := by
    obtain rfl | ⟨v, hv, hm⟩ := holds_list hm
    · exact absurd rfl hmarker
    · exact (h.laidOut v hv).made m hm hmarker

theorem null : Value.null.LaidOut Made low high :=
  of_unmarked fun _ _ => IsAtom.not_marks (v := .null) trivial

theorem present (h : v.LaidOut Made low high) : (Value.present v).LaidOut Made low high where
  between w r hr := h.between w r (marks_present hr)
  nested w r hr := h.nested w r (marks_present hr)
  apart items hitems := by
    obtain hitems | hitems := holds_present hitems
    · cases hitems
    · exact h.apart items hitems
  made m hm hmarker := by
    obtain rfl | hm := holds_present hm
    · exact absurd rfl hmarker
    · exact h.made m hm hmarker

/-- A marker that reaches from the one place to the other. -/
theorem marker (hm : m.marker? = some (v, r)) (hr : r.start.index ≤ r.stop.index)
    (h : v.LaidOut Made r.start.index r.stop.index) (hmade : Made m) :
    m.LaidOut Made r.start.index r.stop.index where
  between w s := by
    rintro ⟨x, hx, hs⟩
    obtain rfl | hx := holds_marker hm hx
    · cases hm.symm.trans hs
      exact ⟨Nat.le_refl _, hr, Nat.le_refl _⟩
    · exact h.between w s ⟨x, hx, hs⟩
  nested w s := by
    rintro ⟨x, hx, hs⟩
    obtain rfl | hx := holds_marker hm hx
    · cases hm.symm.trans hs
      exact h.between
    · exact h.nested w s ⟨x, hx, hs⟩
  apart items hitems := by
    obtain rfl | hitems := holds_marker hm hitems
    · cases hm
    · exact h.apart items hitems
  made x hx hmarker := by
    obtain rfl | hx := holds_marker hm hx
    · exact hmade
    · exact h.made x hx hmarker

theorem nth (h : v.LaidOut Made low high) (i : Nat) : (v.nth i).LaidOut Made low high := by
  cases v with
  | list items =>
    rw [Value.nth]
    cases hi : items[i]? with
    | none => exact null
    | some x => exact h.of_holds (.item (List.mem_of_getElem? hi) (.self x))
  | _ => exact null

/-- Joining the lists of a pair keeps the order of their items. -/
theorem append_pair (h : (Value.list [.list vs, .list ws]).LaidOut Made low high) :
    (Value.list (vs ++ ws)).LaidOut Made low high := by
  have hvs : (Value.list [.list vs, .list ws]).Holds (.list vs) := .item (.head _) (.self _)
  have hws : (Value.list [.list vs, .list ws]).Holds (.list ws) :=
    .item (.tail _ (.head _)) (.self _)
  refine list ⟨fun x hx => ?_, List.pairwise_append.mpr ⟨h.apart _ hvs, h.apart _ hws, ?_⟩⟩
  · rcases List.mem_append.mp hx with hx | hx
    · exact h.of_holds (hvs.trans (.item hx (.self x)))
    · exact h.of_holds (hws.trans (.item hx (.self x)))
  · intro x hx y hy w r hr w' r' hr'
    have hpair := h.apart _ (.self _)
    exact List.rel_of_pairwise_cons hpair (.head _) w r (hr.of_holds (.item hx (.self x))) w' r'
      (hr'.of_holds (.item hy (.self y)))

theorem append (h : v.LaidOut Made low high) : v.append.LaidOut Made low high := by
  rw [Value.append.eq_def]
  split
  · exact append_pair h
  · exact null

end LaidOut

namespace InRow

theorem nil : InRow Made low high [] := ⟨nofun, .nil⟩

theorem cons (h : v.LaidOut Made low mid) (hs : InRow Made mid high vs) (hlow : low ≤ mid)
    (hhigh : mid ≤ high) : InRow Made low high (v :: vs) where
  laidOut := List.forall_mem_cons.mpr
    ⟨h.mono (Nat.le_refl _) hhigh, fun w hw => (hs.laidOut w hw).mono hlow (Nat.le_refl _)⟩
  apart := by
    refine List.pairwise_cons.mpr ⟨fun w hw x r hr y r' hr' => ?_, hs.apart⟩
    exact Nat.le_trans (h.between x r hr).le_high ((hs.laidOut w hw).between y r' hr').low_le

end InRow
end Value
end FurthestFailure
