import FurthestFailure.Proofs.Anew.Adequacy
import FurthestFailure.Proofs.Merging
import FurthestFailure.Proofs.Relabelling

/-! # Labels do not influence runs

Run in stores that are alike but for labels, grammars that are relabellings of each other end alike but
for labels. Descriptions change how deep a run is nested, so a run within a depth is compared with the
run without a bound.
-/
namespace FurthestFailure
set_option autoImplicit false

open Correspondence

theorem Trail.position_merge? {a a' b b' : Option Trail}
    (ha : a.map position = a'.map position) (hb : b.map position = b'.map position) :
    (merge? a b).map position = (merge? a' b').map position := by
  cases a with
  | none =>
    obtain rfl := Option.map_eq_none_iff.mp ha.symm
    cases b <;> cases b' <;> exact hb
  | some t =>
    obtain ⟨t', rfl, ht⟩ := Option.map_eq_some_iff.mp ha.symm
    cases b with
    | none =>
      obtain rfl := Option.map_eq_none_iff.mp hb.symm
      exact ha
    | some u =>
      obtain ⟨u', rfl, hu⟩ := Option.map_eq_some_iff.mp hb.symm
      simp only [merge?, Option.map_some, position_merge, ht, hu]

theorem Trail.none_iff_of_position {a b : Option Trail}
    (h : a.map Trail.position = b.map Trail.position) : a = none ↔ b = none := by
  rw [← Option.map_eq_none_iff, h, Option.map_eq_none_iff]

/-- Both runs see the same but for labels, and leave trails at the same places. -/
def Store.butLabels : Correspondence Store Store where
  cursors := Eq
  ready := Relabelled
  stretch _ _ s t a b := s.Relabelled t ∧ a.map Trail.position = b.map Trail.position
  stay h := ⟨h, rfl⟩
  ready_after h := h.1
  join h h' := ⟨h'.1, Trail.position_merge? h.2 h'.2⟩
  none_iff h := Trail.none_iff_of_position h.2
  still_iff := @Cursor.still_iff_of_eq
  shorter := @Cursor.shorter_of_eq

open Store (butLabels)

theorem Store.butLabels_left_iff {s t : Store} {r r' : Outcome Value × Store} :
    butLabels.Left Eq s t r r' ↔ r.1.SameButLabels r'.1 ∧ r.2.Relabelled r'.2 := by
  constructor
  · rintro ⟨⟨hst, ht⟩, ho⟩
    exact ⟨⟨ho, ht⟩, hst⟩
  · rintro ⟨⟨ho, ht⟩, hst⟩
    exact ⟨⟨hst, ht⟩, ho⟩

theorem Store.butLabels_permissive : butLabels.Permissive where
  fail _ h hs := ⟨hs, by rw [h]⟩
  drop h := ⟨h.1, rfl⟩
  relabel _ h := h
  matched h h' := by rw [h, h']

theorem Store.butLabels_likens : butLabels.Likens Eq Grammar.Relabelled Outcome.SameButLabels where
  cursors _ := rfl
  ready h := relabelled_iff.mpr h
  stores h := relabelled_iff.mp h
  outcomes h := (butLabels_left_iff.mp h).1
  stretch h := ⟨relabelled_iff.mpr h, rfl⟩

section
variable {run₁ run₂ : Grammar → Parser Engine Value}
variable (hrun : ∀ {g h : Grammar}, g.Relabelled h → butLabels.Agree Eq (run₁ g) (run₂ h))
include hrun

omit hrun in
theorem Grammar.leaf_relabelled {l l' : Leaf} (h : l.Relabelled l') :
    butLabels.Agree Eq (fun c => pure (l.run c)) fun c => pure (l'.run c) := by
  rintro c _ rfl s t hst
  refine Follows.some (Store.butLabels_left_iff.mpr ⟨?_, hst⟩)
  cases h with
  | fail label label' => exact ⟨.failure, rfl⟩
  | same l =>
    refine ⟨?_, rfl⟩
    cases l.run c with
    | success => exact .success rfl rfl
    | failure => exact .failure

theorem Grammar.all_relabelled {gs hs : List Grammar} (h : AllRelabelled gs hs) :
    List.Forall₂ (butLabels.Agree Eq) (gs.map run₁) (hs.map run₂) := by
  induction gs generalizing hs with
  | nil =>
    obtain rfl := h
    exact .nil
  | cons g gs ih =>
    obtain ⟨_, _, rfl, hg, hgs⟩ := h
    exact .cons (hrun hg) (ih hgs)

theorem Grammar.handle_relabelled (slot : Nat) (label label' : String) :
    butLabels.Agree Eq
      ((handle slot label).parser run₁ (Store.enter run₁) (Assembly.performed run₁))
      ((handle slot label').parser run₂ (Store.enter run₂) (Assembly.performed run₂)) :=
  Store.butLabels_likens.entering hrun slot (leaf_relabelled (.fail label label'))

theorem Grammar.parser_relabelled {g h : Grammar} (hg : ∀ k label, g ≠ .describe k label)
    (hgh : g.Relabelled h) :
    butLabels.Agree Eq (g.parser run₁ (Store.enter run₁) (Assembly.performed run₁))
      (h.undescribed.parser run₂ (Store.enter run₂) (Assembly.performed run₂)) := by
  have hpos : ∀ {c d}, butLabels.cursors c d → c.position = d.position :=
    fun h => congrArg Cursor.position h
  cases g with
  | describe g label => exact absurd rfl (hg g label)
  | leaf l =>
    obtain ⟨l', hh, hl⟩ := hgh
    rw [hh]
    exact leaf_relabelled hl
  | map g f =>
    obtain ⟨g', hh, hg⟩ := hgh
    rw [hh]
    exact Agree.map (hrun hg) fun _ _ hv => congrArg f hv
  | chain g next =>
    obtain ⟨g', next', hh, hg, hnext⟩ := hgh
    rw [hh]
    refine Agree.chain (f := fun v c => do run₁ (← (next v).performed run₁) c)
      (g := fun v c => do run₂ (← (next' v).performed run₂) c) (hrun hg) ?_
    rintro v _ rfl
    exact Store.butLabels_likens.assembling hrun (hnext v).like
  | sequence gs =>
    obtain ⟨gs', hh, hgs⟩ := hgh
    rw [hh]
    exact agree_list (Agree.sequence (all_relabelled hrun hgs))
  | choice gs =>
    obtain ⟨gs', hh, hgs⟩ := hgh
    have hall := all_relabelled hrun hgs
    rw [hh]
    rcases gs with _ | ⟨g, gs⟩
    · cases hgs
      exact Store.butLabels_permissive.agree_fail "no alternatives"
    · exact Agree.choice hall (List.cons_ne_nil _ _)
  | many g =>
    obtain ⟨g', hh, hg⟩ := hgh
    rw [hh]
    exact agree_list (hrun hg).many
  | times g count =>
    obtain ⟨g', hh, hg⟩ := hgh
    rw [hh]
    exact agree_list ((hrun hg).times count)
  | separatedBy g k =>
    obtain ⟨g', k', hh, hg, hk⟩ := hgh
    rw [hh]
    exact agree_list ((hrun hg).separatedBy (hrun hk))
  | separatedBy1 g k =>
    obtain ⟨g', k', hh, hg, hk⟩ := hgh
    rw [hh]
    exact agree_list ((hrun hg).separatedBy1 (hrun hk))
  | lookahead g =>
    obtain ⟨g', hh, hg⟩ := hgh
    rw [hh]
    exact (hrun hg).lookahead
  | optional g =>
    obtain ⟨g', hh, hg⟩ := hgh
    rw [hh]
    refine Agree.map (hrun hg).optional ?_
    intro a b hab
    cases hab with
    | some hab => rw [hab]
    | none => rfl
  | notFollowedBy g =>
    obtain ⟨g', hh, hg⟩ := hgh
    rw [hh]
    exact Agree.map (Agree.notFollowedBy Store.butLabels_permissive (hrun hg)) fun _ _ _ => rfl
  | mark g =>
    obtain ⟨g', hh, hg⟩ := hgh
    rw [hh]
    exact agree_mark hpos (hrun hg)
  | node g name =>
    obtain ⟨g', hh, hg⟩ := hgh
    rw [hh]
    exact agree_node hpos (hrun hg) name
  | handle slot label =>
    obtain ⟨label', hh⟩ := hgh
    rw [hh]
    exact handle_relabelled hrun slot label label'
  | holding slots g =>
    obtain ⟨g', hh, hg⟩ := hgh
    rw [hh]
    exact hrun hg

end

namespace Grammar
variable {p q : Parser Engine Value}

theorem agree_describe_left (h : butLabels.Agree Eq p q) (label : String) :
    butLabels.Agree Eq (p.describe label) q := by
  intro c d hcd s t hst r hr
  obtain ⟨⟨o, s'⟩, hp, hr⟩ := Option.bind_eq_some_iff.mp hr
  obtain ⟨⟨o', t'⟩, hq, hst', ho⟩ := h hcd hst hp
  refine ⟨(o', t'), hq, ?_⟩
  cases o with
  | success u =>
    cases hr
    exact ⟨hst', ho⟩
  | failure u =>
    cases hr
    refine ⟨hst', ?_⟩
    have ho : Outcome.Alike Eq Eq (.failure u) o' := ho
    cases ho
    exact .failure

theorem agree_describe_right (h : butLabels.Agree Eq p q) (label : String) :
    butLabels.Agree Eq p (q.describe label) := by
  intro c d hcd s t hst r hr
  obtain ⟨⟨o', t'⟩, hq, hst', ho⟩ := h hcd hst hr
  cases o' with
  | success u => exact ⟨_, Option.bind_eq_some_iff.mpr ⟨_, hq, rfl⟩, hst', ho⟩
  | failure u =>
    refine ⟨_, Option.bind_eq_some_iff.mpr ⟨_, hq, rfl⟩, hst', ?_⟩
    generalize r.1 = o at ho ⊢
    cases ho
    exact .failure

theorem agree_of_undescribed : ∀ {h : Grammar},
    butLabels.Agree Eq p h.undescribed.unbounded → butLabels.Agree Eq p h.unbounded
  | .describe h label, hp =>
    agree_unbounded (agree_describe_right (agree_of_undescribed (h := h) hp) label)
  | .leaf _, hp | .map _ _, hp | .chain _ _, hp | .sequence _, hp | .choice _, hp | .many _, hp
  | .times _ _, hp | .separatedBy _ _, hp | .separatedBy1 _ _, hp | .lookahead _, hp
  | .optional _, hp | .notFollowedBy _, hp | .mark _, hp | .node _ _, hp | .handle _ _, hp
  | .holding _ _, hp => hp

theorem runWithin_relabelled (n : Nat) {g h : Grammar} (hgh : g.Relabelled h) :
    butLabels.Agree Eq (g.runWithin n) h.unbounded := by
  induction n generalizing g h with
  | zero => exact fun _ _ _ _ _ _ => Follows.none
  | succ n ih =>
    by_cases hdescribed : ∃ k label, g = .describe k label
    · obtain ⟨k, label, rfl⟩ := hdescribed
      have hk : k.Relabelled h := hgh
      exact agree_describe_left (ih hk) label
    · have hg : ∀ k label, g ≠ .describe k label := fun k label heq => hdescribed ⟨k, label, heq⟩
      exact agree_of_undescribed (agree_unbounded (parser_relabelled ih hg hgh))

theorem Relabelled.ends {g h : Grammar} (hgh : g.Relabelled h) {s t : Store} (hst : s.Relabelled t)
    {c : Cursor} {o : Outcome Value} (hg : g.Ends c s o) :
    ∃ o', h.Ends c t o' ∧ o.SameButLabels o' := by
  obtain ⟨depth, after, hr⟩ := hg
  obtain ⟨⟨o', after'⟩, hr', hleft⟩ := runWithin_relabelled depth hgh rfl hst hr
  obtain ⟨depth', hdepth'⟩ := unbounded_eq_some_iff.mp hr'
  exact ⟨o', ⟨depth', after', hdepth'⟩, (Store.butLabels_left_iff.mp hleft).1⟩

/-- Whatever is described, and however it is labelled, the one grammar ends where the other does, and
the two outcomes differ at most in the labels of their trails. -/
theorem ends_whatever_labels {g h : Grammar} (hgh : g.Relabelled h) {s t : Store}
    (hst : s.Relabelled t) (c : Cursor) :
    (∀ o, g.Ends c s o → ∃ o', h.Ends c t o' ∧ o.SameButLabels o') ∧
      ∀ o', h.Ends c t o' → ∃ o, g.Ends c s o ∧ o.SameButLabels o' := by
  refine ⟨fun o hg => hgh.ends hst hg, fun o' hh => ?_⟩
  obtain ⟨o, hg, ho⟩ := hgh.symm.ends hst.symm hh
  exact ⟨o, hg, ho.symm⟩

/-- A character, and a value that may be put in brackets. -/
def numbered : Grammar :=
  .describe (.chain (.leaf .anyChar) fun n => .done (.map (.handle 0 "value") fun v => .list [n, v]))
    "numbered"

def numberedValue : Grammar :=
  .choice [.sequence [.leaf (.literal "("), .handle 0 "value", .leaf (.literal ")")],
    .leaf (.oneOf "ab"), .leaf (.fail "a value")]

/-- As `numbered`, described in another place. -/
def renumbered : Grammar :=
  .chain (.describe (.leaf .anyChar) "number")
    fun n => .done (.map (.handle 0 "item") fun v => .list [n, v])

def renumberedValue : Grammar :=
  .choice [.describe (.sequence [.leaf (.literal "("), .handle 0 "item",
      .describe (.leaf (.literal ")")) "closing"]) "group",
    .leaf (.oneOf "ab"), .leaf (.fail "nothing else")]

def withDeferred (value : Grammar) : Store := { slots := #[{ state := .deferred (.done value) }] }

/-- The bracket is not closed. -/
theorem ends_whatever_labels_numbered :
    numbered.Relabelled renumbered ∧
      (withDeferred numberedValue).Relabelled (withDeferred renumberedValue) ∧
      numbered.Ends (.start ['1', '(', 'a']) (withDeferred numberedValue)
        (.failure (.failure ⟨3, 1, 4⟩ "numbered")) ∧
      ∃ o', renumbered.Ends (.start ['1', '(', 'a']) (withDeferred renumberedValue) o' ∧
        Outcome.SameButLabels (.failure (.failure ⟨3, 1, 4⟩ "numbered")) o' := by
  have hvalue : numberedValue.Relabelled renumberedValue := by
    simp [numberedValue, renumberedValue, Relabelled, AllRelabelled, undescribed, Leaf.Relabelled.same,
      Leaf.Relabelled.fail]
  have hg : numbered.Relabelled renumbered := by
    simp [numbered, renumbered, Relabelled, Assembly.Relabelled, undescribed, Leaf.Relabelled.same]
  have hst : (withDeferred numberedValue).Relabelled (withDeferred renumberedValue) := by
    rintro (_ | i)
    · exact .some (.deferred ⟨_, rfl, hvalue⟩)
    · exact .none
  have hends : numbered.Ends (.start ['1', '(', 'a']) (withDeferred numberedValue)
      (.failure (.failure ⟨3, 1, 4⟩ "numbered")) := by
    refine ⟨10, { slots := #[{ state := .filled numberedValue, builds := 1 }] }, ?_⟩
    rfl
  exact ⟨hg, hst, hends, (ends_whatever_labels hg hst _).1 _ hends⟩

end Grammar
end FurthestFailure
