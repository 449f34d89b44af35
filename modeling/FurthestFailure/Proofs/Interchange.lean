import FurthestFailure.Proofs.Interchange.Layout

/-! # Forms and what they are read as

Each type of record has its forms: layouts of forms of its fields, so that records and lists may be
mixed at every depth. What is written is a form, a form is read as the value that it is a form of, and
nothing else is read. Only a field whose type has a value for it may be left out: any field of settings,
which then has its default, and the value of a marker if it is of such a type.
-/
namespace FurthestFailure
set_option autoImplicit false

namespace Datum

/-- Each field is given in the way it has, and all are laid out under their names. -/
def Fields (mayEnd : Bool) (forms : List (String × (Option Datum → Prop))) (d : Datum) : Prop :=
  ∃ parts : List (Option Datum), List.Forall₂ (fun form part => form.2 part) forms parts ∧
    d.Lays mayEnd ((forms.map Prod.fst).zip parts)

def IsNatural (n : Nat) (d : Datum) : Prop := n < UInt64.size ∧ d = integer n

/-- The field is given in a form of its own, or is left out and is what that stands for. -/
def Given (absent : Prop) (form : Datum → Prop) : Option Datum → Prop
  | none => absent
  | some d => form d

end Datum

/-- All numbers are below 2^64. -/
def Position.Fits (p : Position) : Prop :=
  p.index < UInt64.size ∧ p.line < UInt64.size ∧ p.column < UInt64.size

def Position.Form (p : Position) : Datum → Prop :=
  Datum.Fields false [("index", Datum.Given False (Datum.IsNatural p.index)),
    ("line", Datum.Given False (Datum.IsNatural p.line)),
    ("column", Datum.Given False (Datum.IsNatural p.column))]

def Range.Fits (r : Range) : Prop := r.start.Fits ∧ r.stop.Fits

def Range.Form (r : Range) : Datum → Prop :=
  Datum.Fields false [("from", Datum.Given False r.start.Form), ("to", Datum.Given False r.stop.Form)]

section values
variable {α : Type} (fits : α → Prop) (form : α → Datum → Prop) (absent : α → Prop)

def Marker.Fits (m : Marker α) : Prop := fits m.value ∧ m.range.Fits

def Marker.Form (m : Marker α) : Datum → Prop :=
  Datum.Fields false [("value", Datum.Given (absent m.value) (form m.value)),
    ("range", Datum.Given False m.range.Form)]

def NamedMarker.Fits (m : NamedMarker α) : Prop := fits m.value ∧ m.range.Fits

def NamedMarker.Form (m : NamedMarker α) : Datum → Prop :=
  Datum.Fields false [("value", Datum.Given (absent m.value) (form m.value)),
    ("name", Datum.Given False (· = .text m.name)), ("range", Datum.Given False m.range.Form)]

end values

def FailureReport.Fits (r : FailureReport) : Prop := r.furthest.Fits

def FailureReport.Form (r : FailureReport) : Datum → Prop :=
  Datum.Fields false [("furthest", Datum.Given False r.furthest.Form),
    ("expected", Datum.Given False (· = .list (r.expected.map .text)))]

def Settings.Form (s : Settings) : Datum → Prop :=
  Datum.Fields true [("source_name", Datum.Given (s.sourceName = "input") (· = .text s.sourceName)),
    ("require_eof", Datum.Given (s.requireEnd = true) (· = .bool s.requireEnd)),
    ("report_furthest_on_success", Datum.Given (s.reportOnSuccess = false) (· = .bool s.reportOnSuccess))]

namespace Codec
variable {α : Type}

/-- What is written of a value that fits is a form of it, forms are read as what they are forms of, and
nothing else is read. The value that is `absent`, if there is one, is that of a field that is left out. -/
structure Carries (c : Codec α) (fits : α → Prop) (form : α → Datum → Prop) (absent : α → Prop) :
    Prop where
  form_write : ∀ {x}, fits x → form x (c.write x)
  read?_of_form : ∀ {x d}, form x d → c.read? d = some x
  form_of_read? : ∀ {x d}, d.Distinct → c.read? d = some x → form x d
  fits_of_read? : ∀ {x d}, c.read? d = some x → fits x
  absent?_iff : ∀ {x}, c.absent? = some x ↔ absent x
  fits_of_absent : ∀ {x}, absent x → fits x

namespace Carries
variable {c : Codec α} {fits fits' : α → Prop} {form : α → Datum → Prop} {absent : α → Prop} {x : α}

theorem of_fits_iff (h : c.Carries fits form absent) (hfits : ∀ x, fits' x ↔ fits x) :
    c.Carries fits' form absent where
  form_write hx := h.form_write ((hfits _).mp hx)
  read?_of_form := h.read?_of_form
  form_of_read? := h.form_of_read?
  fits_of_read? hx := (hfits _).mpr (h.fits_of_read? hx)
  absent?_iff := h.absent?_iff
  fits_of_absent hx := (hfits _).mpr (h.fits_of_absent hx)

theorem readField?_of_given (h : c.Carries fits form absent) {part? : Option Datum}
    (hpart : Datum.Given (absent x) (form x) part?) : c.readField? part? = some x := by
  cases part? with
  | none => exact h.absent?_iff.mpr hpart
  | some part => exact h.read?_of_form hpart

theorem given_of_readField? (h : c.Carries fits form absent) {part? : Option Datum}
    (hdistinct : ∀ part, part? = some part → part.Distinct) (hpart : c.readField? part? = some x) :
    Datum.Given (absent x) (form x) part? := by
  cases part? with
  | none => exact h.absent?_iff.mp hpart
  | some part => exact h.form_of_read? (hdistinct part rfl) hpart

theorem fits_of_readField? (h : c.Carries fits form absent) {part? : Option Datum}
    (hpart : c.readField? part? = some x) : fits x := by
  cases part? with
  | none => exact h.fits_of_absent (h.absent?_iff.mp hpart)
  | some part => exact h.fits_of_read? hpart

/-- A codec with a default for a field that is left out. -/
theorem defaulting (h : c.Carries fits form absent) {default : α} (hdefault : fits default) :
    (c.defaulting default).Carries fits form (· = default) where
  form_write := h.form_write
  read?_of_form := h.read?_of_form
  form_of_read? := h.form_of_read?
  fits_of_read? := h.fits_of_read?
  absent?_iff := by simp [Codec.defaulting, eq_comm]
  fits_of_absent := by
    rintro _ rfl
    exact hdefault

end Carries

/-- A record without one of the fields `required` is refused, and so is a list of more or fewer items than
there are `names`. -/
structure Needs (c : Codec α) (names : List String) (required : String → Prop) : Prop where
  lacking : ∀ {fields : List (String × Datum)} {name : String}, name ∈ names → required name →
    name ∉ fields.map Prod.fst → c.read? (.record fields) = none
  unequal : ∀ {items : List Datum}, items.length ≠ names.length → c.read? (.list items) = none

theorem lookup_eq_none {fields : List (String × Datum)} {name : String}
    (h : name ∉ fields.map Prod.fst) : fields.lookup name = none := by
  refine Option.eq_none_iff_forall_ne_some.mpr fun part hpart => h ?_
  exact List.mem_map_of_mem (Datum.mem_of_lookup_eq_some hpart)

theorem fields?_of_unequal {items : List Datum} {names : List String}
    (h : items.length ≠ names.length) : (Datum.list items).fields? false names = none := by
  rw [Datum.fields?, if_neg]
  simp [h]

section parts
variable {β γ δ ε : Type}

def ofPair (f : δ → Option α) (g : δ → Option β) (make : α → β → ε) : List δ → Option ε
  | [a, b] => do return make (← f a) (← g b)
  | _ => none

def ofTriple (f : δ → Option α) (g : δ → Option β) (h : δ → Option γ) (make : α → β → γ → ε) :
    List δ → Option ε
  | [a, b, c] => do return make (← f a) (← g b) (← h c)
  | _ => none

theorem bind_ofPair_eq_some_iff {f : δ → Option α} {g : δ → Option β} {make : α → β → ε}
    {parts? : Option (List δ)} {x : ε} :
    parts?.bind (ofPair f g make) = some x ↔
      ∃ a b y z, parts? = some [a, b] ∧ f a = some y ∧ g b = some z ∧ make y z = x := by
  constructor
  · intro hread
    obtain ⟨parts, hparts, hread⟩ := Option.bind_eq_some_iff.mp hread
    rw [ofPair.eq_def] at hread
    split at hread
    · next a b =>
      obtain ⟨y, hy, hread⟩ := Option.bind_eq_some_iff.mp hread
      obtain ⟨z, hz, hread⟩ := Option.bind_eq_some_iff.mp hread
      exact ⟨a, b, y, z, hparts, hy, hz, Option.some.inj hread⟩
    · cases hread
  · rintro ⟨a, b, y, z, rfl, hy, hz, rfl⟩
    simp [ofPair, hy, hz]

theorem bind_ofTriple_eq_some_iff {f : δ → Option α} {g : δ → Option β} {h : δ → Option γ}
    {make : α → β → γ → ε} {parts? : Option (List δ)} {x : ε} :
    parts?.bind (ofTriple f g h make) = some x ↔
      ∃ a b c y z w, parts? = some [a, b, c] ∧ f a = some y ∧ g b = some z ∧ h c = some w ∧
        make y z w = x := by
  constructor
  · intro hread
    obtain ⟨parts, hparts, hread⟩ := Option.bind_eq_some_iff.mp hread
    rw [ofTriple.eq_def] at hread
    split at hread
    · next a b c =>
      obtain ⟨y, hy, hread⟩ := Option.bind_eq_some_iff.mp hread
      obtain ⟨z, hz, hread⟩ := Option.bind_eq_some_iff.mp hread
      obtain ⟨w, hw, hread⟩ := Option.bind_eq_some_iff.mp hread
      exact ⟨a, b, c, y, z, w, hparts, hy, hz, hw, Option.some.inj hread⟩
    · cases hread
  · rintro ⟨a, b, c, y, z, w, rfl, hy, hz, hw, rfl⟩
    simp [ofTriple, hy, hz, hw]

variable {c : Codec ε} {c₁ : Codec α} {c₂ : Codec β} {c₃ : Codec γ} {fits₁ : α → Prop}
  {fits₂ : β → Prop} {fits₃ : γ → Prop} {form₁ : α → Datum → Prop} {form₂ : β → Datum → Prop}
  {form₃ : γ → Datum → Prop} {absent₁ : α → Prop} {absent₂ : β → Prop} {absent₃ : γ → Prop}
  {mayEnd : Bool} {first : ε → α} {second : ε → β} {third : ε → γ} {n₁ n₂ n₃ : String}

theorem carries_pair (h₁ : c₁.Carries fits₁ form₁ absent₁) (h₂ : c₂.Carries fits₂ form₂ absent₂)
    (hnames : [n₁, n₂].Nodup) {make : α → β → ε} (hmake : ∀ x, make (first x) (second x) = x)
    (hfirst : ∀ y z, first (make y z) = y) (hsecond : ∀ y z, second (make y z) = z)
    (hwrite : ∀ x, c.write x = .record [(n₁, c₁.write (first x)), (n₂, c₂.write (second x))])
    (hread : ∀ d, c.read? d =
      (d.fields? mayEnd [n₁, n₂]).bind (ofPair c₁.readField? c₂.readField? make))
    (habsent : c.absent? = none) :
    c.Carries (fun x => fits₁ (first x) ∧ fits₂ (second x))
      (fun x => Datum.Fields mayEnd [(n₁, Datum.Given (absent₁ (first x)) (form₁ (first x))),
        (n₂, Datum.Given (absent₂ (second x)) (form₂ (second x)))]) fun _ => False where
  form_write := by
    rintro x ⟨hfits₁, hfits₂⟩
    refine ⟨[some _, some _], .cons (h₁.form_write hfits₁) (.cons (h₂.form_write hfits₂) .nil), ?_⟩
    rw [hwrite]
    exact Datum.lays_present mayEnd _
  read?_of_form := by
    rintro x d ⟨parts, hparts, hlays⟩
    cases hparts with
    | cons hform₁ hparts =>
      cases hparts with
      | cons hform₂ hparts =>
        cases hparts
        have hfields : d.fields? mayEnd [n₁, n₂] = some [_, _] := Datum.fields?_of_lays hlays hnames
        rw [hread, bind_ofPair_eq_some_iff]
        exact ⟨_, _, _, _, hfields, h₁.readField?_of_given hform₁, h₂.readField?_of_given hform₂,
          hmake x⟩
  form_of_read? := by
    intro x d hd h
    rw [hread, bind_ofPair_eq_some_iff] at h
    obtain ⟨a, b, y, z, hfields, hy, hz, rfl⟩ := h
    have hlays : d.Lays mayEnd [(n₁, a), (n₂, b)] := Datum.lays_of_fields? hd hnames hfields
    have hform₁ := h₁.given_of_readField? (fun _ ha => hlays.distinct_part hd (by simp [ha])) hy
    have hform₂ := h₂.given_of_readField? (fun _ hb => hlays.distinct_part hd (by simp [hb])) hz
    rw [hfirst, hsecond]
    exact ⟨[a, b], .cons hform₁ (.cons hform₂ .nil), hlays⟩
  fits_of_read? := by
    intro x d h
    rw [hread, bind_ofPair_eq_some_iff] at h
    obtain ⟨a, b, y, z, -, hy, hz, rfl⟩ := h
    rw [hfirst, hsecond]
    exact ⟨h₁.fits_of_readField? hy, h₂.fits_of_readField? hz⟩
  absent?_iff := by simp [habsent]
  fits_of_absent := nofun

theorem carries_triple (h₁ : c₁.Carries fits₁ form₁ absent₁) (h₂ : c₂.Carries fits₂ form₂ absent₂)
    (h₃ : c₃.Carries fits₃ form₃ absent₃) (hnames : [n₁, n₂, n₃].Nodup) {make : α → β → γ → ε}
    (hmake : ∀ x, make (first x) (second x) (third x) = x)
    (hfirst : ∀ y z w, first (make y z w) = y) (hsecond : ∀ y z w, second (make y z w) = z)
    (hthird : ∀ y z w, third (make y z w) = w)
    (hwrite : ∀ x, c.write x = .record [(n₁, c₁.write (first x)), (n₂, c₂.write (second x)),
      (n₃, c₃.write (third x))])
    (hread : ∀ d, c.read? d = (d.fields? mayEnd [n₁, n₂, n₃]).bind
      (ofTriple c₁.readField? c₂.readField? c₃.readField? make))
    (habsent : c.absent? = none) :
    c.Carries (fun x => fits₁ (first x) ∧ fits₂ (second x) ∧ fits₃ (third x))
      (fun x => Datum.Fields mayEnd [(n₁, Datum.Given (absent₁ (first x)) (form₁ (first x))),
        (n₂, Datum.Given (absent₂ (second x)) (form₂ (second x))),
        (n₃, Datum.Given (absent₃ (third x)) (form₃ (third x)))]) fun _ => False where
  form_write := by
    rintro x ⟨hfits₁, hfits₂, hfits₃⟩
    refine ⟨[some _, some _, some _], .cons (h₁.form_write hfits₁) (.cons (h₂.form_write hfits₂)
      (.cons (h₃.form_write hfits₃) .nil)), ?_⟩
    rw [hwrite]
    exact Datum.lays_present mayEnd _
  read?_of_form := by
    rintro x d ⟨parts, hparts, hlays⟩
    cases hparts with
    | cons hform₁ hparts =>
      cases hparts with
      | cons hform₂ hparts =>
        cases hparts with
        | cons hform₃ hparts =>
          cases hparts
          have hfields : d.fields? mayEnd [n₁, n₂, n₃] = some [_, _, _] :=
            Datum.fields?_of_lays hlays hnames
          rw [hread, bind_ofTriple_eq_some_iff]
          exact ⟨_, _, _, _, _, _, hfields, h₁.readField?_of_given hform₁,
            h₂.readField?_of_given hform₂, h₃.readField?_of_given hform₃, hmake x⟩
  form_of_read? := by
    intro x d hd h
    rw [hread, bind_ofTriple_eq_some_iff] at h
    obtain ⟨a, b, e, y, z, w, hfields, hy, hz, hw, rfl⟩ := h
    have hlays : d.Lays mayEnd [(n₁, a), (n₂, b), (n₃, e)] :=
      Datum.lays_of_fields? hd hnames hfields
    have hform₁ := h₁.given_of_readField? (fun _ ha => hlays.distinct_part hd (by simp [ha])) hy
    have hform₂ := h₂.given_of_readField? (fun _ hb => hlays.distinct_part hd (by simp [hb])) hz
    have hform₃ := h₃.given_of_readField? (fun _ he => hlays.distinct_part hd (by simp [he])) hw
    rw [hfirst, hsecond, hthird]
    exact ⟨[a, b, e], .cons hform₁ (.cons hform₂ (.cons hform₃ .nil)), hlays⟩
  fits_of_read? := by
    intro x d h
    rw [hread, bind_ofTriple_eq_some_iff] at h
    obtain ⟨a, b, e, y, z, w, -, hy, hz, hw, rfl⟩ := h
    rw [hfirst, hsecond, hthird]
    exact ⟨h₁.fits_of_readField? hy, h₂.fits_of_readField? hz, h₃.fits_of_readField? hw⟩
  absent?_iff := by simp [habsent]
  fits_of_absent := nofun

theorem needs_pair {make : α → β → ε} {required : String → Prop}
    (h₁ : required n₁ → c₁.absent? = none) (h₂ : required n₂ → c₂.absent? = none)
    (hread : ∀ d, c.read? d =
      (d.fields? false [n₁, n₂]).bind (ofPair c₁.readField? c₂.readField? make)) :
    c.Needs [n₁, n₂] required where
  lacking {fields name} hname hrequired hlacking := by
    have hnone := lookup_eq_none hlacking
    have hfields : c.read? (.record fields) = ofPair c₁.readField? c₂.readField? make
        [fields.lookup n₁, fields.lookup n₂] := hread _
    obtain rfl | rfl : name = n₁ ∨ name = n₂ := by simpa using hname
    · simp [hfields, ofPair, hnone, readField?, h₁ hrequired]
    · simp [hfields, ofPair, hnone, readField?, h₂ hrequired]
  unequal hlength := by rw [hread, fields?_of_unequal hlength, Option.bind_none]

theorem needs_triple {make : α → β → γ → ε} {required : String → Prop}
    (h₁ : required n₁ → c₁.absent? = none) (h₂ : required n₂ → c₂.absent? = none)
    (h₃ : required n₃ → c₃.absent? = none)
    (hread : ∀ d, c.read? d = (d.fields? false [n₁, n₂, n₃]).bind
      (ofTriple c₁.readField? c₂.readField? c₃.readField? make)) :
    c.Needs [n₁, n₂, n₃] required where
  lacking {fields name} hname hrequired hlacking := by
    have hnone := lookup_eq_none hlacking
    have hfields : c.read? (.record fields) = ofTriple c₁.readField? c₂.readField? c₃.readField? make
        [fields.lookup n₁, fields.lookup n₂, fields.lookup n₃] := hread _
    obtain rfl | rfl | rfl : name = n₁ ∨ name = n₂ ∨ name = n₃ := by simpa using hname
    · simp [hfields, ofTriple, hnone, readField?, h₁ hrequired]
    · simp [hfields, ofTriple, hnone, readField?, h₂ hrequired]
    · simp [hfields, ofTriple, hnone, readField?, h₃ hrequired]
  unequal hlength := by rw [hread, fields?_of_unequal hlength, Option.bind_none]

end parts

theorem natural_read?_iff {n : Nat} {d : Datum} :
    natural.read? d = some n ↔ n < UInt64.size ∧ d = .integer n := by
  constructor
  · intro h
    cases d with
    | integer i =>
      simp only [natural] at h
      split at h
      · next hi =>
        cases h
        constructor
        · omega
        · rw [Int.toNat_of_nonneg hi.1]
      · cases h
    | _ => cases h
  · rintro ⟨hn, rfl⟩
    simp only [natural, Int.toNat_natCast]
    exact if_pos ⟨Int.natCast_nonneg n, by exact_mod_cast hn⟩

theorem text_read?_iff {s : String} {d : Datum} : text.read? d = some s ↔ d = .text s := by
  cases d <;> simp [text]

theorem bool_read?_iff {b : Bool} {d : Datum} : bool.read? d = some b ↔ d = .bool b := by
  cases d <;> simp [bool]

theorem texts_read?_iff {ss : List String} {d : Datum} :
    (list text).read? d = some ss ↔ d = .list (ss.map .text) := by
  cases d with
  | list items =>
    simp only [list, Datum.list.injEq]
    induction items generalizing ss with
    | nil => cases ss <;> simp
    | cons item items ih =>
      cases ss with
      | nil => simp [Option.bind_eq_some_iff]
      | cons s ss => simp [Option.bind_eq_some_iff, ih, text_read?_iff]
  | _ => simp [list]

theorem position_read? (d : Datum) : position.read? d =
    (d.fields? false ["index", "line", "column"]).bind
      (ofTriple natural.readField? natural.readField? natural.readField? .mk) := by
  apply bind_congr
  rintro (_ | ⟨_, _ | ⟨_, _ | ⟨_, _ | _⟩⟩⟩) <;> rfl

theorem range_read? (d : Datum) : range.read? d =
    (d.fields? false ["from", "to"]).bind (ofPair position.readField? position.readField? .mk) := by
  apply bind_congr
  rintro (_ | ⟨_, _ | ⟨_, _ | _⟩⟩) <;> rfl

theorem marker_read? (value : Codec α) (d : Datum) : (marker value).read? d =
    (d.fields? false ["value", "range"]).bind (ofPair value.readField? range.readField? .mk) := by
  apply bind_congr
  rintro (_ | ⟨_, _ | ⟨_, _ | _⟩⟩) <;> rfl

theorem namedMarker_read? (value : Codec α) (d : Datum) : (namedMarker value).read? d =
    (d.fields? false ["value", "name", "range"]).bind
      (ofTriple value.readField? text.readField? range.readField? .mk) := by
  apply bind_congr
  rintro (_ | ⟨_, _ | ⟨_, _ | ⟨_, _ | _⟩⟩⟩) <;> rfl

theorem failureReport_read? (d : Datum) : failureReport.read? d =
    (d.fields? false ["furthest", "expected"]).bind
      (ofPair position.readField? (list text).readField? .mk) := by
  apply bind_congr
  rintro (_ | ⟨_, _ | ⟨_, _ | _⟩⟩) <;> rfl

theorem settings_read? (d : Datum) : settings.read? d =
    (d.fields? true ["source_name", "require_eof", "report_furthest_on_success"]).bind
      (ofTriple (text.defaulting "input").readField? (bool.defaulting true).readField?
        (bool.defaulting false).readField? .mk) := by
  apply bind_congr
  rintro (_ | ⟨_, _ | ⟨_, _ | ⟨_, _ | _⟩⟩⟩) <;> rfl

theorem natural_carries :
    natural.Carries (· < UInt64.size) Datum.IsNatural fun _ => False where
  form_write h := ⟨h, rfl⟩
  read?_of_form h := natural_read?_iff.mpr h
  form_of_read? _ h := natural_read?_iff.mp h
  fits_of_read? h := (natural_read?_iff.mp h).1
  absent?_iff := by simp [natural]
  fits_of_absent := nofun

theorem text_carries : text.Carries (fun _ => True) (fun s d => d = .text s) fun _ => False where
  form_write _ := rfl
  read?_of_form h := text_read?_iff.mpr h
  form_of_read? _ h := text_read?_iff.mp h
  fits_of_read? _ := trivial
  absent?_iff := by simp [text]
  fits_of_absent := nofun

theorem bool_carries : bool.Carries (fun _ => True) (fun b d => d = .bool b) fun _ => False where
  form_write _ := rfl
  read?_of_form h := bool_read?_iff.mpr h
  form_of_read? _ h := bool_read?_iff.mp h
  fits_of_read? _ := trivial
  absent?_iff := by simp [bool]
  fits_of_absent := nofun

theorem texts_carries :
    (list text).Carries (fun _ => True) (fun ss d => d = .list (ss.map .text)) fun _ => False where
  form_write _ := rfl
  read?_of_form h := texts_read?_iff.mpr h
  form_of_read? _ h := texts_read?_iff.mp h
  fits_of_read? _ := trivial
  absent?_iff := by simp [list]
  fits_of_absent := nofun

theorem position_carries : position.Carries Position.Fits Position.Form fun _ => False :=
  carries_triple natural_carries natural_carries natural_carries (by decide) (fun _ => rfl)
    (fun _ _ _ => rfl) (fun _ _ _ => rfl) (fun _ _ _ => rfl) (fun _ => rfl) position_read? rfl

theorem range_carries : range.Carries Range.Fits Range.Form fun _ => False :=
  carries_pair position_carries position_carries (by decide) (fun _ => rfl) (fun _ _ => rfl)
    (fun _ _ => rfl) (fun _ => rfl) range_read? rfl

section values
variable {value : Codec α} {fits : α → Prop} {form : α → Datum → Prop} {absent : α → Prop}

theorem marker_carries (h : value.Carries fits form absent) :
    (marker value).Carries (Marker.Fits fits) (Marker.Form form absent) fun _ => False :=
  carries_pair h range_carries (by decide) (fun _ => rfl) (fun _ _ => rfl) (fun _ _ => rfl)
    (fun _ => rfl) (marker_read? value) rfl

theorem namedMarker_carries (h : value.Carries fits form absent) :
    (namedMarker value).Carries (NamedMarker.Fits fits) (NamedMarker.Form form absent)
      fun _ => False :=
  (carries_triple h text_carries range_carries (by decide) (fun _ => rfl) (fun _ _ _ => rfl)
    (fun _ _ _ => rfl) (fun _ _ _ => rfl) (fun _ => rfl) (namedMarker_read? value) rfl).of_fits_iff
    fun _ => by rw [NamedMarker.Fits, true_and]

theorem marker_needs :
    (marker value).Needs ["value", "range"] fun name => name = "value" → value.absent? = none :=
  needs_pair (fun h => h rfl) (fun _ => rfl) (marker_read? value)

theorem namedMarker_needs : (namedMarker value).Needs ["value", "name", "range"] fun name =>
    name = "value" → value.absent? = none :=
  needs_triple (fun h => h rfl) (fun _ => rfl) (fun _ => rfl) (namedMarker_read? value)

variable {x : α} {fields : List (String × Datum)} {d : Datum}

theorem readField?_of_absent (habsent : value.absent? = some x) (hd : value.read? d = some x)
    (hlacking : "value" ∉ fields.map Prod.fst) :
    value.readField? (fields.lookup "value") = value.readField? (some d) := by
  rw [lookup_eq_none hlacking, readField?, readField?, habsent, hd]

/-- To leave out the value is to write there what stands for it. -/
theorem marker_read?_of_absent (habsent : value.absent? = some x) (hd : value.read? d = some x)
    (hlacking : "value" ∉ fields.map Prod.fst) :
    (marker value).read? (.record fields) = (marker value).read? (.record (("value", d) :: fields)) := by
  have hsame := readField?_of_absent habsent hd hlacking
  rw [marker_read?, marker_read?]
  change ofPair _ _ _ [fields.lookup "value", fields.lookup "range"] =
    ofPair _ _ _ [some d, fields.lookup "range"]
  rw [ofPair, ofPair, hsame]

theorem namedMarker_read?_of_absent (habsent : value.absent? = some x) (hd : value.read? d = some x)
    (hlacking : "value" ∉ fields.map Prod.fst) : (namedMarker value).read? (.record fields) =
      (namedMarker value).read? (.record (("value", d) :: fields)) := by
  have hsame := readField?_of_absent habsent hd hlacking
  rw [namedMarker_read?, namedMarker_read?]
  change ofTriple _ _ _ _ [fields.lookup "value", fields.lookup "name", fields.lookup "range"] =
    ofTriple _ _ _ _ [some d, fields.lookup "name", fields.lookup "range"]
  rw [ofTriple, ofTriple, hsame]

end values

theorem failureReport_carries :
    failureReport.Carries FailureReport.Fits FailureReport.Form fun _ => False :=
  (carries_pair position_carries texts_carries (by decide) (fun _ => rfl) (fun _ _ => rfl)
    (fun _ _ => rfl) (fun _ => rfl) failureReport_read? rfl).of_fits_iff
    fun _ => by rw [FailureReport.Fits, and_true]

theorem settings_carries : settings.Carries (fun _ => True) Settings.Form fun _ => False :=
  (carries_triple (text_carries.defaulting trivial) (bool_carries.defaulting trivial)
    (bool_carries.defaulting trivial) (by decide) (fun _ => rfl) (fun _ _ _ => rfl)
    (fun _ _ _ => rfl) (fun _ _ _ => rfl) (fun _ => rfl) settings_read? rfl).of_fits_iff
    fun _ => by simp

section settings
variable {name requireEnd report : Option Datum} {d d' : Datum}

theorem readField?_getD (c : Codec α) (default : α) (h : c.read? (c.write default) = some default)
    (part? : Option Datum) : (c.defaulting default).readField? (some (part?.getD (c.write default))) =
      (c.defaulting default).readField? part? := by
  cases part? with
  | none => exact h
  | some part => rfl

theorem settings_read?_of_lays (h : d.Lays true [("source_name", name), ("require_eof", requireEnd),
      ("report_furthest_on_success", report)]) :
    settings.read? d = ofTriple (text.defaulting "input").readField? (bool.defaulting true).readField?
      (bool.defaulting false).readField? .mk [name, requireEnd, report] := by
  have hfields : d.fields? true ["source_name", "require_eof", "report_furthest_on_success"] =
      some [name, requireEnd, report] :=
    Datum.fields?_of_lays h (by simp)
  rw [settings_read?, hfields]
  rfl

/-- To leave out fields is to write their defaults there. -/
theorem settings_read?_eq_of_defaults
    (h : d.Lays true [("source_name", name), ("require_eof", requireEnd),
      ("report_furthest_on_success", report)])
    (h' : d'.Lays true [("source_name", some (name.getD (.text "input"))),
      ("require_eof", some (requireEnd.getD (.bool true))),
      ("report_furthest_on_success", some (report.getD (.bool false)))]) :
    settings.read? d = settings.read? d' := by
  have hname := readField?_getD text "input" rfl name
  have hrequireEnd := readField?_getD bool true rfl requireEnd
  have hreport := readField?_getD bool false rfl report
  rw [text] at hname
  rw [bool] at hrequireEnd hreport
  rw [settings_read?_of_lays h, settings_read?_of_lays h', ofTriple, ofTriple, text, bool, hname,
    hrequireEnd, hreport]

end settings

/-- What is written of a value that fits is read as that value again. A value that was read, from whatever
form, fits, and is written in a form that is read as it and written as before. -/
structure RoundTrips (c : Codec α) (fits : α → Prop) (form : α → Datum → Prop) : Prop
    extends c.Carries fits form fun _ => False where
  read?_write : ∀ {x}, fits x → c.read? (c.write x) = some x
  settles : ∀ {x d}, c.read? d = some x → fits x ∧ c.read? (c.write x) = some x ∧
    (c.read? (c.write x)).map c.write = some (c.write x)

theorem Carries.roundTrips {c : Codec α} {fits : α → Prop} {form : α → Datum → Prop}
    (h : c.Carries fits form fun _ => False) : c.RoundTrips fits form where
  toCarries := h
  read?_write hx := h.read?_of_form (h.form_write hx)
  settles {x d} hx := by
    have hfits := h.fits_of_read? hx
    have hread := h.read?_of_form (h.form_write hfits)
    rw [hread]
    exact ⟨hfits, rfl, rfl⟩

/-- Records are read back as they were written, from any of their forms and from nothing else. A record
that lacks a field is refused, but for two: a marker whose values have one that stands for a field left
out, which stands there then, and settings, whose defaults do. -/
theorem records_round_trip :
    (position.RoundTrips Position.Fits Position.Form ∧
      position.Needs ["index", "line", "column"] fun _ => True) ∧
    (range.RoundTrips Range.Fits Range.Form ∧ range.Needs ["from", "to"] fun _ => True) ∧
    (∀ {α : Type} {value : Codec α} {fits : α → Prop} {form : α → Datum → Prop} {absent : α → Prop},
      value.Carries fits form absent →
        ((marker value).RoundTrips (Marker.Fits fits) (Marker.Form form absent) ∧
          (marker value).Needs ["value", "range"] fun name =>
            name = "value" → value.absent? = none) ∧
        ((namedMarker value).RoundTrips (NamedMarker.Fits fits) (NamedMarker.Form form absent) ∧
          (namedMarker value).Needs ["value", "name", "range"] fun name =>
            name = "value" → value.absent? = none) ∧
        ∀ {x d}, value.absent? = some x → value.read? d = some x →
          ∀ fields : List (String × Datum), "value" ∉ fields.map Prod.fst →
            (marker value).read? (.record fields) =
                (marker value).read? (.record (("value", d) :: fields)) ∧
              (namedMarker value).read? (.record fields) =
                (namedMarker value).read? (.record (("value", d) :: fields))) ∧
    (failureReport.RoundTrips FailureReport.Fits FailureReport.Form ∧
      failureReport.Needs ["furthest", "expected"] fun _ => True) ∧
    settings.RoundTrips (fun _ => True) Settings.Form ∧
    ∀ {name requireEnd report : Option Datum} {d d' : Datum},
      d.Lays true [("source_name", name), ("require_eof", requireEnd),
        ("report_furthest_on_success", report)] →
      d'.Lays true [("source_name", some (name.getD (.text "input"))),
        ("require_eof", some (requireEnd.getD (.bool true))),
        ("report_furthest_on_success", some (report.getD (.bool false)))] →
      settings.read? d = settings.read? d' := by
  refine ⟨⟨position_carries.roundTrips, ?_⟩, ⟨range_carries.roundTrips, ?_⟩, fun h => ?_,
    ⟨failureReport_carries.roundTrips, ?_⟩, settings_carries.roundTrips, settings_read?_eq_of_defaults⟩
  · exact needs_triple (fun _ => rfl) (fun _ => rfl) (fun _ => rfl) position_read?
  · exact needs_pair (fun _ => rfl) (fun _ => rfl) range_read?
  · exact ⟨⟨(marker_carries h).roundTrips, marker_needs⟩,
      ⟨(namedMarker_carries h).roundTrips, namedMarker_needs⟩,
      fun habsent hd fields hlacking => ⟨marker_read?_of_absent habsent hd hlacking,
        namedMarker_read?_of_absent habsent hd hlacking⟩⟩
  · exact needs_pair (fun _ => rfl) (fun _ => rfl) failureReport_read?

/-- Values that may be missing; one that is left out is missing too. -/
def optional (value : Codec α) : Codec (Option α) where
  write
    | none => .null
    | some x => value.write x
  read?
    | .null => some none
    | d => (value.read? d).map some
  absent? := some none

def optionalForm (form : α → Datum → Prop) : Option α → Datum → Prop
  | none, d => d = .null
  | some x, d => form x d

theorem optional_carries {value : Codec α} {fits : α → Prop} {form : α → Datum → Prop}
    {absent : α → Prop} (h : value.Carries fits form absent) (hnull : value.read? .null = none) :
    (optional value).Carries (fun o => ∀ x, o = some x → fits x) (optionalForm form) (· = none) := by
  have hread : ∀ {d x}, value.read? d = some x → (optional value).read? d = some (some x) := by
    intro d x hx
    cases d with
    | null => rw [hnull] at hx; cases hx
    | _ => exact congrArg (Option.map some) hx
  have hinv : ∀ {d o}, (optional value).read? d = some o →
      d = .null ∧ o = none ∨ ∃ x, o = some x ∧ value.read? d = some x := by
    intro d o ho
    cases d with
    | null => exact .inl ⟨rfl, (Option.some.inj ho).symm⟩
    | _ =>
      obtain ⟨x, hx, rfl⟩ := Option.map_eq_some_iff.mp ho
      exact .inr ⟨x, rfl, hx⟩
  exact {
    form_write := by
      rintro (_ | x) hfits
      · exact rfl
      · exact h.form_write (hfits x rfl)
    read?_of_form := by
      rintro (_ | x) d hform
      · obtain rfl : d = .null := hform
        rfl
      · exact hread (h.read?_of_form hform)
    form_of_read? := by
      rintro o d hd ho
      obtain ⟨rfl, rfl⟩ | ⟨x, rfl, hx⟩ := hinv ho
      · exact rfl
      · exact h.form_of_read? hd hx
    fits_of_read? := by
      rintro o d ho y rfl
      obtain ⟨-, hnone⟩ | ⟨x, hsome, hx⟩ := hinv ho
      · cases hnone
      · cases hsome
        exact h.fits_of_read? hx
    absent?_iff := by simp [optional, eq_comm]
    fits_of_absent := by
      rintro _ rfl
      exact nofun }

/-- A marker is read without a value where a value may be missing, and a report with fewer labels. -/
theorem marker_lacks_value :
    (marker (optional text)).read? (.record [("range", range.write ⟨.start, .start⟩)]) =
        some ⟨none, ⟨.start, .start⟩⟩ ∧
      failureReport.read? (.record [("furthest", position.write .start), ("expected", .list [])]) =
        some ⟨.start, []⟩ := by
  decide

def ruleMarker : NamedMarker String := ⟨"é", "vowel", ⟨⟨0, 1, 1⟩, ⟨2, 1, 2⟩⟩⟩

/-- A list with a record in it, which has one more field and holds a list and a record. -/
def ruleMarkerForm : Datum :=
  .list [.text "é", .text "vowel", .record [
    ("to", .list [.integer 2, .integer 1, .integer 2]), ("note", .null),
    ("from", .record [("column", .integer 1), ("index", .integer 0), ("line", .integer 1)])]]

theorem ruleMarker_form :
    NamedMarker.Form (fun s d => d = Datum.text s) (fun _ => False) ruleMarker ruleMarkerForm := by
  have hstart : Position.Form ⟨0, 1, 1⟩
      (.record [("column", .integer 1), ("index", .integer 0), ("line", .integer 1)]) := by
    refine ⟨[some _, some _, some _], .cons ⟨by decide, rfl⟩
      (.cons ⟨by decide, rfl⟩ (.cons ⟨by decide, rfl⟩ .nil)), ?_⟩
    apply @Datum.Lays.record _ _ _ []
    · exact @List.perm_append_comm _ [("column", Datum.integer 1)] _
    · simp
  have hstop : Position.Form ⟨2, 1, 2⟩ (.list [.integer 2, .integer 1, .integer 2]) :=
    ⟨[some _, some _, some _], .cons ⟨by decide, rfl⟩
      (.cons ⟨by decide, rfl⟩ (.cons ⟨by decide, rfl⟩ .nil)), @Datum.Lays.list _ _ _ 0 (.inr rfl) rfl⟩
  have hrange : Range.Form ⟨⟨0, 1, 1⟩, ⟨2, 1, 2⟩⟩ (.record [
      ("to", .list [.integer 2, .integer 1, .integer 2]), ("note", .null),
      ("from", .record [("column", .integer 1), ("index", .integer 0), ("line", .integer 1)])]) := by
    refine ⟨[some _, some _], .cons hstart (.cons hstop .nil), ?_⟩
    apply @Datum.Lays.record _ _ _ [("note", .null)]
    · exact @List.perm_append_comm _ [("to", _), ("note", _)] [("from", _)]
    · simp
  exact ⟨[some _, some _, some _], .cons rfl (.cons rfl (.cons hrange .nil)), @Datum.Lays.list _ _ _ 0 (.inr rfl) rfl⟩

/-- A marker is read from its mixed form, one whose value may be missing without it, and settings from a
list of their name alone. -/
theorem records_round_trip_mixed :
    text.Carries (fun _ => True) (fun s d => d = .text s) (fun _ => False) ∧
      (namedMarker text).read? ruleMarkerForm = some ruleMarker ∧
      (namedMarker text).read? ((namedMarker text).write ruleMarker) = some ruleMarker ∧
      (marker (optional text)).read? (.record [("range", range.write ⟨.start, .start⟩)]) =
        (marker (optional text)).read?
          (.record [("value", .null), ("range", range.write ⟨.start, .start⟩)]) ∧
      Datum.Lays true [("source_name", some (.text "a")), ("require_eof", none),
        ("report_furthest_on_success", none)] (.list [.text "a"]) ∧
      Datum.Lays true [("source_name", some (.text "a")), ("require_eof", some (.bool true)),
        ("report_furthest_on_success", some (.bool false))] (.list [.text "a", .bool true, .bool false]) ∧
      settings.read? (.list [.text "a"]) =
        settings.read? (.list [.text "a", .bool true, .bool false]) := by
  have hmarker := (records_round_trip.2.2.1 text_carries).2.1.1
  have hread := hmarker.read?_of_form ruleMarker_form
  have hshort : Datum.Lays true [("source_name", some (.text "a")), ("require_eof", none),
      ("report_furthest_on_success", none)] (.list [.text "a"]) := @Datum.Lays.list _ _ _ 2 (.inl rfl) rfl
  have hfull : Datum.Lays true [("source_name", some (.text "a")), ("require_eof", some (.bool true)),
      ("report_furthest_on_success", some (.bool false))]
      (.list [.text "a", .bool true, .bool false]) := @Datum.Lays.list _ _ _ 0 (.inr rfl) rfl
  have hlacking := (records_round_trip.2.2.1 (optional_carries text_carries rfl)).2.2
    (x := none) (d := .null) rfl rfl [("range", range.write ⟨.start, .start⟩)] (by decide)
  exact ⟨text_carries, hread, (hmarker.settles hread).2.1, hlacking.1, hshort, hfull,
    records_round_trip.2.2.2.2.2 hshort hfull⟩

end Codec
end FurthestFailure
