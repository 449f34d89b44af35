import FurthestFailure.Proofs.Coherence
import FurthestFailure.Proofs.Expectations

/-! # Diagnostics point at the text

A diagnostic can be made of any place. Its span begins there and covers the character that starts
there, so it covers nothing inside a character and from the end of the text on. What a run reports is
at a place that a scan of the text finds; so its span is empty only at the end of the text.
-/
namespace FurthestFailure
set_option autoImplicit false

namespace Text
variable {text : List Char} {offset : Nat} {x : Char}

/-- In `text` the character `x` starts at byte `offset`. -/
def StartsAt (text : List Char) (offset : Nat) (x : Char) : Prop :=
  ∃ before after, text = before ++ x :: after ∧ byteLength before = offset

theorem dropBytes_eq_cons_iff {after : List Char} : dropBytes offset text = x :: after ↔
    ∃ before, text = before ++ x :: after ∧ byteLength before = offset := by
  constructor
  · intro h
    fun_induction dropBytes offset text with
    | case1 text => exact ⟨[], by simpa using h, rfl⟩
    | case2 n => cases h
    | case3 n c text hle ih =>
      obtain ⟨before, rfl, hlength⟩ := ih h
      refine ⟨c :: before, rfl, ?_⟩
      rw [byteLength_cons, hlength, Nat.add_sub_cancel' hle]
    | case4 n c text hlt => cases h
  · rintro ⟨before, rfl, rfl⟩
    exact dropBytes_byteLength_append before (x :: after)

theorem startsAt_iff : StartsAt text offset x ↔ (dropBytes offset text).head? = some x := by
  rw [List.head?_eq_some_iff]
  simp only [dropBytes_eq_cons_iff]
  exact exists_comm

theorem StartsAt.fits (h : StartsAt text offset x) : offset + x.utf8Size ≤ byteLength text := by
  obtain ⟨before, after, rfl, rfl⟩ := h
  rw [byteLength_append, byteLength_cons]
  exact Nat.add_le_add_left (Nat.le_add_right _ _) _

end Text

namespace Diagnostic
open Text

variable {text : List Char} {offset : Nat}

theorem widthAt_of_startsAt {x : Char} (h : StartsAt text offset x) :
    widthAt text offset = x.utf8Size := by
  obtain ⟨after, hdrop⟩ := List.head?_eq_some_iff.mp (startsAt_iff.mp h)
  rw [widthAt, hdrop]

theorem widthAt_of_not_startsAt (h : ∀ x, ¬ StartsAt text offset x) : widthAt text offset = 0 := by
  rcases hdrop : dropBytes offset text with _ | ⟨x, after⟩
  · rw [widthAt, hdrop]
  · exact absurd (startsAt_iff.mpr (by rw [hdrop]; rfl)) (h x)

theorem widthAt_eq_zero_iff {p : Position} (h : p.ScannedIn text) :
    widthAt text p.index = 0 ↔ p.index = byteLength text := by
  obtain ⟨read, rest, rfl, rfl⟩ := h
  have hindex : (Position.start.advancedOver read).index = byteLength read := by
    simp [Position.start]
  rw [widthAt, hindex, dropBytes_byteLength_append, byteLength_append]
  cases rest with
  | nil => simp
  | cons x rest =>
    have hpos := x.utf8Size_pos
    simp only [byteLength_cons]
    omega

/-- The span begins at the place of the diagnostic and covers the character that starts there. -/
structure PointsInto (text : List Char) (e : Diagnostic) : Prop where
  offset : e.span.offset = e.furthest.index
  char : ∀ x, StartsAt text e.furthest.index x → e.span.length = x.utf8Size
  blank : (∀ x, ¬ StartsAt text e.furthest.index x) → e.span.length = 0
  inside : e.furthest.index ≤ byteLength text →
    e.span.offset + e.span.length ≤ byteLength text ∧
      (e.span.length = 0 ∨ ∃ x, StartsAt text e.span.offset x ∧ e.span.length = x.utf8Size)

theorem ofTrail_pointsInto (name : String) (text : List Char) (t : Trail) :
    (ofTrail name text t).PointsInto text where
  offset := rfl
  char x h := widthAt_of_startsAt h
  blank h := widthAt_of_not_startsAt h
  inside hle := by
    change t.position.index + widthAt text t.position.index ≤ byteLength text ∧
      (widthAt text t.position.index = 0 ∨
        ∃ x, StartsAt text t.position.index x ∧ widthAt text t.position.index = x.utf8Size)
    by_cases h : ∃ x, StartsAt text t.position.index x
    · obtain ⟨x, hx⟩ := h
      have hwidth := widthAt_of_startsAt hx
      rw [hwidth]
      exact ⟨hx.fits, .inr ⟨x, hx, rfl⟩⟩
    · have hwidth := widthAt_of_not_startsAt (not_exists.mp h)
      rw [hwidth]
      exact ⟨hle, .inl rfl⟩

/-- How a help begins that lists so many labels. -/
def helpLead (count : Nat) : String := if count = 1 then "expected " else "expected one of: "

theorem helpFor_of_ne_nil {labels : List String} (h : labels ≠ []) :
    helpFor labels = some (helpLead labels.length ++ ", ".intercalate labels) := by
  rcases labels with _ | ⟨label, _ | ⟨other, labels⟩⟩
  · exact absurd rfl h
  · simp [helpFor, helpLead]
  · simp [helpFor, helpLead]

/-- The diagnostic is about the place of the trail, and wherever it lists labels, it lists those of the
trail in their order. -/
structure Lists (t : Trail) (e : Diagnostic) : Prop where
  furthest : e.furthest = t.position
  expected : e.expected = t.expected.toList
  report : e.report = t.report
  message : e.message =
    "Parse error at " ++ t.position.display ++ ": expected " ++ ", ".intercalate t.expected.toList
  help : e.help =
    some (helpLead t.expected.toList.length ++ ", ".intercalate t.expected.toList)

theorem ofTrail_lists (name : String) (text : List Char) {t : Trail} (h : t.Tells) :
    (ofTrail name text t).Lists t where
  furthest := rfl
  expected := rfl
  report := rfl
  message := rfl
  help := helpFor_of_ne_nil h.informs.nonempty

end Diagnostic

namespace Grammar
variable {g : Grammar} {store final : Store} {depth : Nat} {settings : Settings} {text : List Char}
  {t : Trail}

theorem hasOwnLeaves_of_library (g : Grammar) (hg : IsLibraryLeaf g) : HasOwnLeaves g := by
  cases g with
  | leaf l =>
    cases l with
    | custom run => exact hg.elim
    | _ => trivial
  | _ => trivial

/-- Whatever the settings, a failure is at a place of the text and says what was expected. -/
theorem scanned_of_parseWith (hg : g.IsLibrary) (hs : store.IsLibrary)
    (h : Parser.parseWith (g.runWithin depth) settings text store = some (.failure t, final)) :
    t.position.ScannedIn text ∧ t.Tells := by
  obtain ⟨o, ho, hunder⟩ := Parser.parseWith_eq_some_iff.mp h
  have htrail : (o.under settings).trail? = some t := by rw [hunder]; rfl
  have htells := tells_of_runWithin (hg.mono hasOwnLeaves_of_library)
    (hs.mono hasOwnLeaves_of_library) ho
  refine ⟨?_, htells.under settings t htrail⟩
  rcases Outcome.trail_of_under htrail with hown | ⟨u, rfl, hmerge⟩
  · exact scanned_of_trail hg hs .start ho hown
  · rcases Trail.merge?_position hmerge with ⟨v, hv, hp⟩ | ⟨v, hv, hp⟩
    · exact hp ▸ scanned_of_trail hg hs .start ho hv
    · cases hv
      exact hp ▸ (onward_of_runWithin hg hs .start ho).1.scanned

/-- A diagnostic of any trail, wherever that is, covers the character that starts there or nothing. What
a run reports is at a place of the text, its span is empty at the end of the text only, and it lists
the labels of the trail of that run. -/
theorem diagnostics_point_at_text :
    (∀ name text t, (Diagnostic.ofTrail name text t).furthest = t.position ∧
      (Diagnostic.ofTrail name text t).PointsInto text) ∧
    ∀ {g : Grammar}, g.IsLibrary → ∀ {store : Store}, store.IsLibrary →
      ∀ {depth : Nat} {settings : Settings} {text : List Char} {e : Diagnostic} {final : Store},
        Parser.tryParse (g.runWithin depth) settings text store = some (.error e, final) →
        e.furthest.ScannedIn text ∧ e.furthest.index ≤ Text.byteLength text ∧
          (e.span.length = 0 ↔ e.furthest.index = Text.byteLength text) ∧
          ∃ t, Parser.parseWith (g.runWithin depth) settings text store =
              some (.failure t, final) ∧
            e.Lists t := by
  constructor
  · intro name text t
    exact ⟨rfl, Diagnostic.ofTrail_pointsInto name text t⟩
  · intro g hg store hs depth settings text e final h
    obtain ⟨t, ht, rfl⟩ := Parser.tryParse_error_iff.mp h
    obtain ⟨hscanned, htells⟩ := scanned_of_parseWith hg hs ht
    exact ⟨hscanned, hscanned.index_le, Diagnostic.widthAt_eq_zero_iff hscanned, t, ht,
      Diagnostic.ofTrail_lists _ text htells⟩

/-- Some characters, then one of two. -/
def accentedThenOne : Grammar :=
  .sequence [.many (.leaf (.oneOf "xé\n")), .choice [.leaf (.literal "a"), .leaf (.literal "b")]]

/-- The span covers a character of three bytes in the second line. -/
theorem diagnostics_point_at_text_accented :
    accentedThenOne.IsLibrary ∧ Store.IsLibrary {} ∧ ∃ e final,
      Parser.tryParse (accentedThenOne.runWithin 4) {} ['x', '\n', 'é', '√', 'a'] {} =
          some (.error e, final) ∧
        e.span = ⟨4, 3⟩ ∧ e.help = some "expected one of: 'a', 'b', one of 'xé\n'" ∧
        e.furthest.ScannedIn ['x', '\n', 'é', '√', 'a'] ∧
        ∃ t, Parser.parseWith (accentedThenOne.runWithin 4) {} ['x', '\n', 'é', '√', 'a'] {} =
            some (.failure t, final) ∧
          e.Lists t := by
  have hg : accentedThenOne.IsLibrary := by
    simp [accentedThenOne, Everywhere, AllEverywhere, IsLibraryLeaf, Leaf.IsLibrary]
  have hs : Store.IsLibrary {} := Store.everywhere_empty
  have haccented : (many (.leaf (.oneOf "xé\n"))).runWithin 3 (.start ['x', '\n', 'é', '√', 'a']) {} =
      some (.success ⟨.list [.text "x", .text "\n", .text "é"],
        ⟨['x', '\n', 'é', '√', 'a'], ⟨4, 2, 2⟩, ['√', 'a']⟩,
        some (.failure ⟨4, 2, 2⟩ "one of 'xé\n'")⟩, {}) :=
    Option.bind_eq_some_iff.mpr ⟨_, Parser.manyFrom_of_moved rfl (by decide) (by decide)
      (Parser.manyFrom_of_moved rfl (by decide) (by decide) (Parser.manyFrom_of_moved rfl (by decide)
        (by decide) (Parser.manyFrom_of_failed rfl))), rfl⟩
  have hrun : Parser.tryParse (accentedThenOne.runWithin 4) {} ['x', '\n', 'é', '√', 'a'] {} =
      some (.error (.ofTrail "input" ['x', '\n', 'é', '√', 'a']
        ⟨⟨4, 2, 2⟩, .ofList ["'a'", "'b'", "one of 'xé\n'"]⟩), {}) :=
    Option.bind_eq_some_iff.mpr ⟨_, Option.bind_eq_some_iff.mpr ⟨_,
      Option.bind_eq_some_iff.mpr ⟨_, Option.bind_eq_some_iff.mpr ⟨_, haccented, rfl⟩, rfl⟩, rfl⟩, rfl⟩
  obtain ⟨hscanned, -, -, hlists⟩ := diagnostics_point_at_text.2 hg hs hrun
  exact ⟨hg, hs, _, _, hrun, by decide, by decide, hscanned, hlists⟩

end Grammar
end FurthestFailure
