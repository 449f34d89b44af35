import FurthestFailure.Proofs.Anew.Adequacy
import FurthestFailure.Proofs.Likeness

/-! # Values do not influence runs

Without continuations nothing ever looks at a value: combinators put values together and drop them, and
whether and where they go on is decided by outcomes alone. So grammars that differ only in the values
they yield, and in what is put around their parts to change or mark values, recognise the same and fail
alike. What is put around a part changes how deep a run is nested, so a run within a depth is compared
with the run without a bound.
-/
namespace FurthestFailure
set_option autoImplicit false

open Correspondence

namespace Outcome
variable {α β γ : Type}

/-- The same rest and the same trail, or the same failure. -/
def SameButValue (o : Outcome α) (o' : Outcome β) : Prop := (o.map fun _ => ()) = o'.map fun _ => ()

/-- The outcome with the value that `f` makes of a success. -/
def revalued (f : Success α → β) : Outcome α → Outcome β
  | success s => success ⟨f s, s.rest, s.furthest⟩
  | failure t => failure t

theorem sameButValue_iff {o : Outcome α} {o' : Outcome β} :
    o.SameButValue o' ↔ o.trail? = o'.trail? ∧ Alike Eq (fun _ _ => True) o o' := by
  constructor
  · intro h
    rcases o with ⟨v, rest, a⟩ | t <;> rcases o' with ⟨v', rest', a'⟩ | t' <;> cases h
    · exact ⟨rfl, .success trivial rfl⟩
    · exact ⟨rfl, .failure⟩
  · rintro ⟨ht, ho⟩
    cases ho with
    | @success s s' _ hc =>
      obtain ⟨v, rest, a⟩ := s
      cases hc
      cases ht
      rfl
    | failure =>
      cases ht
      rfl

theorem map_revalued (f : Success α → β) (o : Outcome α) :
    ((o.revalued f).map fun _ => ()) = o.map fun _ => () := by
  cases o <;> rfl

end Outcome

namespace Grammar

/-- The first grammar is the second one with something around it that changes or marks its value. -/
inductive Wraps : Grammar → Grammar → Prop
  | map (g : Grammar) (f : Value → Value) : Wraps (.map g f) g
  | mark (g : Grammar) : Wraps (.mark g) g
  | node (g : Grammar) (name : String) : Wraps (.node g name) g

/-- The grammars are alike but for values: for the constants that they yield, and for what is around any
of their parts to change or mark values. There are no continuations in them. -/
inductive Revalued : Grammar → Grammar → Prop
  | leaf (l : Leaf) : Revalued (.leaf l) (.leaf l)
  | succeed (v v' : Value) : Revalued (.leaf (.succeed v)) (.leaf (.succeed v'))
  | left {w g h : Grammar} (hw : w.Wraps g) (hgh : Revalued g h) : Revalued w h
  | right {g h w : Grammar} (hw : w.Wraps h) (hgh : Revalued g h) : Revalued g w
  | sequence {gs hs : List Grammar} (hlength : gs.length = hs.length)
    (hgh : ∀ {g h}, (g, h) ∈ gs.zip hs → Revalued g h) : Revalued (.sequence gs) (.sequence hs)
  | choice {gs hs : List Grammar} (hlength : gs.length = hs.length)
    (hgh : ∀ {g h}, (g, h) ∈ gs.zip hs → Revalued g h) : Revalued (.choice gs) (.choice hs)
  | many {g h : Grammar} (hgh : Revalued g h) : Revalued (.many g) (.many h)
  | times {g h : Grammar} (count : Nat) (hgh : Revalued g h) :
    Revalued (.times g count) (.times h count)
  | separatedBy {g h k l : Grammar} (hgh : Revalued g h) (hkl : Revalued k l) :
    Revalued (.separatedBy g k) (.separatedBy h l)
  | separatedBy1 {g h k l : Grammar} (hgh : Revalued g h) (hkl : Revalued k l) :
    Revalued (.separatedBy1 g k) (.separatedBy1 h l)
  | lookahead {g h : Grammar} (hgh : Revalued g h) : Revalued (.lookahead g) (.lookahead h)
  | optional {g h : Grammar} (hgh : Revalued g h) : Revalued (.optional g) (.optional h)
  | notFollowedBy {g h : Grammar} (hgh : Revalued g h) :
    Revalued (.notFollowedBy g) (.notFollowedBy h)
  | describe {g h : Grammar} (label : String) (hgh : Revalued g h) :
    Revalued (.describe g label) (.describe h label)
  | handle (slot : Nat) (label : String) : Revalued (.handle slot label) (.handle slot label)
  | holding {g h : Grammar} (slots : List Nat) (hgh : Revalued g h) :
    Revalued (.holding slots g) (.holding slots h)

/-- No continuation. -/
def Chainless : Grammar → Prop
  | .chain _ _ => False
  | _ => True

mutual

theorem revalued_self : ∀ {g : Grammar}, g.Everywhere Chainless → g.Revalued g
  | .leaf l, _ => .leaf l
  | .map g f, h => .left (.map g f) (.right (.map g f) (revalued_self h.2))
  | .mark g, h => .left (.mark g) (.right (.mark g) (revalued_self h.2))
  | .node g name, h => .left (.node g name) (.right (.node g name) (revalued_self h.2))
  | .chain _ _, h => h.1.elim
  | .sequence _, h => .sequence rfl fun hm => (List.forall₂_iff_zip.mp (allRevalued_self h.2)).2 hm
  | .choice _, h => .choice rfl fun hm => (List.forall₂_iff_zip.mp (allRevalued_self h.2)).2 hm
  | .many _, h => .many (revalued_self h.2)
  | .times _ count, h => .times count (revalued_self h.2)
  | .separatedBy _ _, h => .separatedBy (revalued_self h.2.1) (revalued_self h.2.2)
  | .separatedBy1 _ _, h => .separatedBy1 (revalued_self h.2.1) (revalued_self h.2.2)
  | .lookahead _, h => .lookahead (revalued_self h.2)
  | .optional _, h => .optional (revalued_self h.2)
  | .notFollowedBy _, h => .notFollowedBy (revalued_self h.2)
  | .describe _ label, h => .describe label (revalued_self h.2)
  | .handle slot label, _ => .handle slot label
  | .holding slots _, h => .holding slots (revalued_self h.2)

theorem allRevalued_self : ∀ {gs : List Grammar}, AllEverywhere Chainless gs →
    List.Forall₂ Revalued gs gs
  | [], _ => .nil
  | _ :: _, h => .cons (revalued_self h.1) (allRevalued_self h.2)

end

theorem symm_zip {R : Grammar → Grammar → Prop} {gs hs : List Grammar}
    (hlength : gs.length = hs.length) (h : ∀ {g h}, (g, h) ∈ gs.zip hs → R h g) :
    ∀ {g h}, (g, h) ∈ hs.zip gs → R g h :=
  fun hm => (List.forall₂_iff_zip.mp (List.forall₂_iff_zip.mpr ⟨hlength, h⟩ :
    List.Forall₂ (flip R) gs hs).flip).2 hm

theorem Revalued.symm {g h : Grammar} (hgh : g.Revalued h) : h.Revalued g := by
  induction hgh with
  | leaf l => exact .leaf l
  | succeed v v' => exact .succeed v' v
  | left hw _ ih => exact .right hw ih
  | right hw _ ih => exact .left hw ih
  | sequence hlength _ ih => exact .sequence hlength.symm (symm_zip hlength ih)
  | choice hlength _ ih => exact .choice hlength.symm (symm_zip hlength ih)
  | many _ ih => exact .many ih
  | times count _ ih => exact .times count ih
  | separatedBy _ _ ih ih' => exact .separatedBy ih ih'
  | separatedBy1 _ _ ih ih' => exact .separatedBy1 ih ih'
  | lookahead _ ih => exact .lookahead ih
  | optional _ ih => exact .optional ih
  | notFollowedBy _ ih => exact .notFollowedBy ih
  | describe label _ ih => exact .describe label ih
  | handle slot label => exact .handle slot label
  | holding slots _ ih => exact .holding slots ih

end Grammar

/-- Both runs see stores that are alike but for values, and leave the same but for values. -/
abbrev Store.butValues : Correspondence Store Store :=
  lockstep (Store.Like Grammar.Revalued Outcome.SameButValue)

open Store (butValues)

section
variable {α β γ : Type} {p : Parser Engine α} {q : Parser Engine β}

theorem Store.butValues_left_iff {s t : Store} {r : Outcome α × Store} {r' : Outcome β × Store} :
    butValues.Left (fun _ _ => True) s t r r' ↔
      r.1.SameButValue r'.1 ∧ r.2.Like Grammar.Revalued Outcome.SameButValue r'.2 := by
  rw [Outcome.sameButValue_iff]
  constructor
  · rintro ⟨⟨hst, ht⟩, ho⟩
    exact ⟨⟨ht, ho⟩, hst⟩
  · rintro ⟨⟨ht, ho⟩, hst⟩
    exact ⟨⟨hst, ht⟩, ho⟩

theorem Store.butValues_likens :
    butValues.Likens (fun _ _ => True) Grammar.Revalued Outcome.SameButValue where
  cursors _ := rfl
  ready h := h
  stores h := h
  outcomes h := (butValues_left_iff.mp h).1
  stretch h := ⟨h, rfl⟩

theorem agree_revalued_left (h : butValues.Agree (fun _ _ => True) p q)
    (f : Cursor → Success α → γ) :
    butValues.Agree (fun _ _ => True) (fun c => do return (← p c).revalued (f c)) q := by
  rintro c d hcd s t hst ⟨o, s'⟩ hr
  obtain ⟨o, ho, rfl⟩ := return_eq_some_iff.mp hr
  obtain ⟨r', hr', hleft⟩ := h hcd hst ho
  obtain ⟨hsame, hst'⟩ := Store.butValues_left_iff.mp hleft
  exact ⟨r', hr', Store.butValues_left_iff.mpr ⟨(Outcome.map_revalued _ _).trans hsame, hst'⟩⟩

theorem agree_revalued_right (h : butValues.Agree (fun _ _ => True) p q)
    (f : Cursor → Success β → γ) :
    butValues.Agree (fun _ _ => True) p fun c => do return (← q c).revalued (f c) := by
  intro c d hcd s t hst r hr
  obtain ⟨⟨o', t'⟩, ho', hleft⟩ := h hcd hst hr
  obtain ⟨hsame, hst'⟩ := Store.butValues_left_iff.mp hleft
  exact ⟨(o'.revalued (f d), t'), return_eq_some_iff.mpr ⟨o', ho', rfl⟩,
    Store.butValues_left_iff.mpr ⟨hsame.trans (Outcome.map_revalued _ _).symm, hst'⟩⟩

end

namespace Grammar

theorem Wraps.parser {w g : Grammar} (hw : w.Wraps g) : ∃ f : Cursor → Success Value → Value,
    ∀ (run : Grammar → Parser Engine Value) enter perform,
      w.parser run enter perform = fun c => do return (← run g c).revalued (f c) := by
  cases hw with
  | map g f =>
    refine ⟨fun _ s => f s.value, fun run enter perform => funext fun c => bind_congr fun o => ?_⟩
    cases o <;> rfl
  | mark g =>
    refine ⟨fun c s => .ofMarker ⟨s.value, ⟨c.position, s.rest.position⟩⟩,
      fun run enter perform => funext fun c => ?_⟩
    simp only [Grammar.parser, Parser.map, Parser.mark, bind_assoc]
    apply bind_congr
    intro o
    cases o <;> rfl
  | node g name =>
    refine ⟨fun c s => .ofNamedMarker ⟨s.value, name, ⟨c.position, s.rest.position⟩⟩,
      fun run enter perform => funext fun c => ?_⟩
    simp only [Grammar.parser, Parser.map, Parser.node, Parser.mark, bind_assoc]
    apply bind_congr
    intro o
    cases o <;> rfl

theorem forall₂_agree {n : Nat} {gs hs : List Grammar} (hlength : gs.length = hs.length)
    (hgh : ∀ {g h}, (g, h) ∈ gs.zip hs →
      butValues.Agree (fun _ _ => True) (g.runWithin n) h.unbounded) :
    List.Forall₂ (butValues.Agree fun _ _ => True) (gs.map (runWithin n)) (hs.map unbounded) := by
  rw [List.forall₂_map_left_iff, List.forall₂_map_right_iff]
  exact List.forall₂_iff_zip.mpr ⟨hlength, hgh⟩

theorem agree_leaf_but_values {l l' : Leaf} (h : ∀ c, (l.run c).SameButValue (l'.run c)) :
    butValues.Agree (fun _ _ => True) (fun c => pure (l.run c)) fun c => pure (l'.run c) := by
  rintro c _ rfl s t hst
  exact Follows.some (Store.butValues_left_iff.mpr ⟨h c, hst⟩)

theorem runWithin_revalued (n : Nat) {g h : Grammar} (hgh : g.Revalued h) :
    butValues.Agree (fun _ _ => True) (g.runWithin n) h.unbounded := by
  induction n generalizing g h with
  | zero => exact fun _ _ _ _ _ _ => Follows.none
  | succ n ih =>
    rw [runWithin]
    induction hgh with
    | leaf l => exact agree_unbounded (agree_leaf_but_values fun _ => rfl)
    | succeed v v' => exact agree_unbounded (agree_leaf_but_values fun _ => rfl)
    | left hw hgh _ =>
      obtain ⟨f, hf⟩ := hw.parser
      rw [hf]
      exact agree_revalued_left (ih hgh) f
    | right hw _ ihright =>
      obtain ⟨f, hf⟩ := hw.parser
      rw [unbounded_eq, hf]
      exact agree_revalued_right ihright f
    | sequence hlength hgh _ =>
      exact agree_unbounded (Agree.map (Agree.sequence (forall₂_agree hlength fun hm => ih (hgh hm)))
        fun _ _ _ => trivial)
    | @choice gs hs hlength hgh _ =>
      have hall := forall₂_agree hlength fun hm => ih (hgh hm)
      apply agree_unbounded
      rcases gs with _ | ⟨g, gs⟩
      · obtain rfl := List.length_eq_zero_iff.mp hlength.symm
        exact lockstep_permissive.agree_fail "no alternatives"
      · exact Agree.choice hall (List.cons_ne_nil _ _)
    | many hgh _ => exact agree_unbounded (Agree.map (ih hgh).many fun _ _ _ => trivial)
    | times count hgh _ =>
      exact agree_unbounded (Agree.map ((ih hgh).times count) fun _ _ _ => trivial)
    | separatedBy hgh hkl _ _ =>
      exact agree_unbounded (Agree.map ((ih hgh).separatedBy (ih hkl)) fun _ _ _ => trivial)
    | separatedBy1 hgh hkl _ _ =>
      exact agree_unbounded (Agree.map ((ih hgh).separatedBy1 (ih hkl)) fun _ _ _ => trivial)
    | lookahead hgh _ => exact agree_unbounded (ih hgh).lookahead
    | optional hgh _ => exact agree_unbounded (Agree.map (ih hgh).optional fun _ _ _ => trivial)
    | notFollowedBy hgh _ =>
      exact agree_unbounded
        (Agree.map (Agree.notFollowedBy lockstep_permissive (ih hgh)) fun _ _ _ => trivial)
    | describe label hgh _ =>
      exact agree_unbounded (Agree.describe lockstep_permissive (ih hgh) label)
    | handle slot label =>
      exact agree_unbounded (Store.butValues_likens.entering ih slot
        (lockstep_permissive.agree_fail label))
    | holding slots hgh _ => exact agree_unbounded (ih hgh)

theorem Revalued.ends {g h : Grammar} (hgh : g.Revalued h) {s t : Store}
    (hst : s.Like Revalued Outcome.SameButValue t) {c : Cursor} {o : Outcome Value}
    (hg : g.Ends c s o) : ∃ o', h.Ends c t o' ∧ o.SameButValue o' := by
  obtain ⟨depth, after, hr⟩ := hg
  obtain ⟨⟨o', after'⟩, hr', hleft⟩ := runWithin_revalued depth hgh rfl hst hr
  obtain ⟨depth', hdepth'⟩ := unbounded_eq_some_iff.mp hr'
  exact ⟨o', ⟨depth', after', hdepth'⟩, (Store.butValues_left_iff.mp hleft).1⟩

/-- Whatever the values are, and whatever is around any part to change or mark them, the one grammar
ends where the other does, and the two outcomes differ at most in their values. -/
theorem ends_whatever_values {g h : Grammar} (hgh : g.Revalued h) {s t : Store}
    (hst : s.Like Revalued Outcome.SameButValue t) (c : Cursor) :
    (∀ o, g.Ends c s o → ∃ o', h.Ends c t o' ∧ o.SameButValue o') ∧
      ∀ o', h.Ends c t o' → ∃ o, g.Ends c s o ∧ o.SameButValue o' := by
  refine ⟨fun o hg => hgh.ends hst hg, fun o' hh => ?_⟩
  obtain ⟨o, hg, ho⟩ := hgh.symm.ends (hst.symm Revalued.symm Eq.symm) hh
  exact ⟨o, hg, ho.symm⟩

/-- Signs with their ranges, not before an `x`, and digits. -/
def signed : Grammar :=
  .sequence [.many (.mark (.leaf (.oneOf "+-"))), .notFollowedBy (.leaf (.literal "x")),
    .handle 0 "digits"]

def digits : Grammar := .separatedBy (.leaf (.oneOf "12")) (.leaf (.literal ","))

/-- As `signed`, but it is the `x` that is marked, and only the number of the parts is told. -/
def resigned : Grammar :=
  .map (.sequence [.many (.leaf (.oneOf "+-")), .notFollowedBy (.node (.leaf (.literal "x")) "x"),
    .handle 0 "digits"]) Value.size

def redigits : Grammar :=
  .separatedBy (.mark (.leaf (.oneOf "12"))) (.result (.leaf (.literal ",")) (.bool true))

def digitsStore : Store := { slots := #[{ state := .deferred (.done digits) }] }

def redigitsStore : Store := { slots := #[{ state := .deferred (.done redigits) }] }

def signedOutcome : Outcome Value :=
  .success ⟨.list [.list [.marked (.text "-") ⟨⟨0, 1, 1⟩, ⟨1, 1, 2⟩⟩], .null,
    .list [.text "1", .text "2"]], ⟨['-', '1', ',', '2'], ⟨4, 1, 5⟩, []⟩,
    some (.failure ⟨4, 1, 5⟩ "','")⟩

theorem ends_whatever_values_signed :
    signed.Revalued resigned ∧ digitsStore.Like Revalued Outcome.SameButValue redigitsStore ∧
      signed.Ends (.start ['-', '1', ',', '2']) digitsStore signedOutcome ∧
      ∃ o', resigned.Ends (.start ['-', '1', ',', '2']) redigitsStore o' ∧
        signedOutcome.SameButValue o' := by
  have hparts : List.Forall₂ Revalued
      [.many (.mark (.leaf (.oneOf "+-"))), .notFollowedBy (.leaf (.literal "x")), .handle 0 "digits"]
      [.many (.leaf (.oneOf "+-")), .notFollowedBy (.node (.leaf (.literal "x")) "x"),
        .handle 0 "digits"] :=
    .cons (.many (.left (.mark _) (.leaf _))) (.cons (.notFollowedBy (.right (.node _ _) (.leaf _)))
      (.cons (.handle 0 "digits") .nil))
  have hg : signed.Revalued resigned :=
    .right (.map _ _) (.sequence rfl fun hm => (List.forall₂_iff_zip.mp hparts).2 hm)
  have hdigits : digits.Revalued redigits :=
    .separatedBy (.right (.mark _) (.leaf _)) (.right (.map _ _) (.leaf _))
  have hst : digitsStore.Like Revalued Outcome.SameButValue redigitsStore := by
    rintro (_ | i)
    · exact .some (.deferred (.done hdigits))
    · exact .none
  have hends : signed.Ends (.start ['-', '1', ',', '2']) digitsStore signedOutcome := by
    have hsigns : (many (.mark (.leaf (.oneOf "+-")))).runWithin 9 (.start ['-', '1', ',', '2'])
        digitsStore = some (.success ⟨.list [.marked (.text "-") ⟨⟨0, 1, 1⟩, ⟨1, 1, 2⟩⟩],
          ⟨['-', '1', ',', '2'], ⟨1, 1, 2⟩, ['1', ',', '2']⟩,
          some (.failure ⟨1, 1, 2⟩ "one of '+-'")⟩, digitsStore) :=
      Option.bind_eq_some_iff.mpr ⟨_, Parser.manyFrom_of_moved rfl (by decide) (by decide)
        (Parser.manyFrom_of_failed rfl), rfl⟩
    have hdigits : (handle 0 "digits").runWithin 9
        ⟨['-', '1', ',', '2'], ⟨1, 1, 2⟩, ['1', ',', '2']⟩ digitsStore =
        some (.success ⟨.list [.text "1", .text "2"], ⟨['-', '1', ',', '2'], ⟨4, 1, 5⟩, []⟩,
          some (.failure ⟨4, 1, 5⟩ "','")⟩,
          { slots := #[{ state := .filled digits, builds := 1 }] }) :=
      Option.bind_eq_some_iff.mpr ⟨_, Parser.separatedFrom_of_round rfl rfl (by decide)
        (Parser.separatedFrom_of_failed rfl), rfl⟩
    exact ⟨10, _, Option.bind_eq_some_iff.mpr ⟨_, Option.bind_eq_some_iff.mpr ⟨_, hsigns,
      Option.bind_eq_some_iff.mpr ⟨_, hdigits, rfl⟩⟩, rfl⟩⟩
  exact ⟨hg, hst, hends, (ends_whatever_values hg hst _).1 _ hends⟩

end Grammar

end FurthestFailure
