import FurthestFailure.Proofs.Patterns.Searching
import FurthestFailure.Proofs.Patterns.Wrapping

/-! # The engine of prioritised search keeps to what is known of engines

Its regular expressions mean what it finds. What it finds lies in the text; and one that is read on its own
is, inside the group it is pasted into, tied to the front by the caret before the group.
-/
namespace FurthestFailure.Regex
set_option autoImplicit false

namespace Engine
variable {E : Engine} {source text : List Char} {place : Nat} {m : Match} {r : Searcher}

/-- What an engine finds, as a meaning of its regular expressions. -/
def meaning (E : Engine) : Meaning := fun source text place =>
  ((E.compile? source).bind (·.find? text)).filter (·.began == place)

theorem meaning_eq_some_iff : E.meaning source text place = some m ↔
    ∃ r, E.compile? source = some r ∧ r.find? text = some m ∧ m.began = place := by
  simp only [meaning, Option.filter_eq_some_iff, Option.bind_eq_some_iff, beq_iff_eq]
  constructor
  · rintro ⟨⟨r, hr, hm⟩, hbegan⟩
    exact ⟨r, hr, hm, hbegan⟩
  · rintro ⟨r, hr, hm, hbegan⟩
    exact ⟨⟨r, hr, hm⟩, hbegan⟩

theorem meaning_found (hr : E.compile? source = some r) (hm : r.find? text = some m) :
    E.meaning source text m.began = some m ∧
      ∀ place < m.began, E.meaning source text place = none := by
  refine ⟨meaning_eq_some_iff.mpr ⟨r, hr, hm, rfl⟩, fun place hlt => ?_⟩
  refine Option.eq_none_iff_forall_ne_some.mpr fun m' h => ?_
  obtain ⟨r', hr', hm', rfl⟩ := meaning_eq_some_iff.mp h
  cases hr.symm.trans hr'
  cases hm.symm.trans hm'
  exact Nat.lt_irrefl _ hlt

theorem meaning_missed (hr : E.compile? source = some r) (hm : r.find? text = none) (place : Nat) :
    E.meaning source text place = none := by
  rw [meaning, hr, Option.bind_some, hm]
  rfl

theorem prioritised_eq_some_iff : prioritised.compile? source = some r ↔
    ∃ e, Expr.ofText? source = some e ∧ e.footprint ≤ largestFootprint ∧
      r = (Program.ofExpr e).searcher (e.lastGroup + 1) := by
  simp only [prioritised, Option.bind_eq_bind, Option.bind_eq_some_iff, Option.pure_def,
    Option.ite_none_right_eq_some, Option.some.injEq]
  simp only [eq_comm]

/-- The regular expression that is a caret. -/
def caret : Searcher := (Program.ofExpr (.look .textStart)).searcher 1

theorem prioritised_caret : prioritised.compile? ['^'] = some caret := by cbv

theorem caret_find? (text : List Char) : caret.find? text = some ⟨0, 0, []⟩ := by
  change ((Program.ofExpr (.look .textStart)).search text).map _ = _
  rw [Program.search_eq_listed]
  rfl

theorem began_of_wrapped {r' : Searcher} (hr : prioritised.compile? source = some r)
    (hr' : prioritised.compile? (Pattern.wrapped source) = some r') (hm : r'.find? text = some m) :
    m.began = 0 := by
  obtain ⟨body, hbody, -, -⟩ := prioritised_eq_some_iff.mp hr
  obtain ⟨e, he, -, rfl⟩ := prioritised_eq_some_iff.mp hr'
  have hstarts : (Program.ofExpr e).startsText = true := by
    change e.startsText = true
    rw [Expr.ofText?_wrapped hbody he]
    exact Expr.startsText_wrapped body
  exact Program.began_of_find? hstarts hm

theorem prioritised_obeys : prioritised.Obeys prioritised.meaning where
  found := meaning_found
  missed := meaning_missed
  lies := by
    intro source r text place m hr h
    obtain ⟨r, hr, hm, rfl⟩ := meaning_eq_some_iff.mp h
    obtain ⟨e, -, -, rfl⟩ := prioritised_eq_some_iff.mp hr
    exact Program.liesIn_of_find? hm
  caret := by
    intro source r r' text place m hr hr' h
    obtain ⟨r'', hr'', hm, rfl⟩ := meaning_eq_some_iff.mp h
    cases hr'.symm.trans hr''
    rw [began_of_wrapped hr hr' hm]
    have hcaret := meaning_eq_some_iff.mpr ⟨caret, prioritised_caret, caret_find? text, rfl⟩
    exact Option.isSome_iff_exists.mpr ⟨_, hcaret⟩
  front := by
    intro text place h
    obtain ⟨m, hm⟩ := Option.isSome_iff_exists.mp h
    obtain ⟨r, hr, hfound, rfl⟩ := meaning_eq_some_iff.mp hm
    cases prioritised_caret.symm.trans hr
    cases (caret_find? text).symm.trans hfound
    rfl

end Engine

theorem Pattern.ofText?_prioritised {source : String} {e : Expr}
    (he : Expr.ofText? (wrapped source.toList) = some e)
    (hsize : e.footprint ≤ Engine.largestFootprint) :
    ofText? .prioritised source = some ⟨source, (Program.ofExpr e).searcher (e.lastGroup + 1)⟩ :=
  ofText?_eq_some_iff.mpr ⟨Engine.prioritised_eq_some_iff.mpr ⟨e, he, hsize, rfl⟩, rfl⟩

end FurthestFailure.Regex
