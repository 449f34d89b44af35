import FurthestFailure.Proofs.Likeness

/-! # Grammars that differ in labels only

Two grammars are relabellings of each other if they are alike but for their labels: descriptions may
stand around any of their parts on one side only or with different labels, leaves that fail may do so
with different labels, and so may handles. Two assemblies are if they do alike with grammars that are
relabellings of each other; one that tries a grammar sees its outcome, and must not go by the labels
in it.
-/
namespace FurthestFailure
set_option autoImplicit false

inductive Leaf.Relabelled : Leaf → Leaf → Prop
  | same (l : Leaf) : Relabelled l l
  | fail (label label' : String) : Relabelled (.fail label) (.fail label')

/-- The same value and rest or a failure in both, and trails at the same place, if any. -/
def Outcome.SameButLabels (o o' : Outcome Value) : Prop :=
  Alike Eq Eq o o' ∧ o.trail?.map Trail.position = o'.trail?.map Trail.position

/-- The grammar without the descriptions around it. -/
def Grammar.undescribed : Grammar → Grammar
  | .describe g _ => g.undescribed
  | g => g

mutual

def Grammar.Relabelled : Grammar → Grammar → Prop
  | .leaf l, h => ∃ l', h.undescribed = .leaf l' ∧ l.Relabelled l'
  | .map g f, h => ∃ g', h.undescribed = .map g' f ∧ g.Relabelled g'
  | .chain g next, h =>
    ∃ g' next', h.undescribed = .chain g' next' ∧ g.Relabelled g' ∧ ∀ v, (next v).Relabelled (next' v)
  | .sequence gs, h => ∃ gs', h.undescribed = .sequence gs' ∧ Grammar.AllRelabelled gs gs'
  | .choice gs, h => ∃ gs', h.undescribed = .choice gs' ∧ Grammar.AllRelabelled gs gs'
  | .many g, h => ∃ g', h.undescribed = .many g' ∧ g.Relabelled g'
  | .times g count, h => ∃ g', h.undescribed = .times g' count ∧ g.Relabelled g'
  | .separatedBy g k, h =>
    ∃ g' k', h.undescribed = .separatedBy g' k' ∧ g.Relabelled g' ∧ k.Relabelled k'
  | .separatedBy1 g k, h =>
    ∃ g' k', h.undescribed = .separatedBy1 g' k' ∧ g.Relabelled g' ∧ k.Relabelled k'
  | .lookahead g, h => ∃ g', h.undescribed = .lookahead g' ∧ g.Relabelled g'
  | .optional g, h => ∃ g', h.undescribed = .optional g' ∧ g.Relabelled g'
  | .notFollowedBy g, h => ∃ g', h.undescribed = .notFollowedBy g' ∧ g.Relabelled g'
  | .describe g _, h => g.Relabelled h
  | .mark g, h => ∃ g', h.undescribed = .mark g' ∧ g.Relabelled g'
  | .node g name, h => ∃ g', h.undescribed = .node g' name ∧ g.Relabelled g'
  | .handle slot _, h => ∃ label', h.undescribed = .handle slot label'
  | .holding slots g, h => ∃ g', h.undescribed = .holding slots g' ∧ g.Relabelled g'

def Grammar.AllRelabelled : List Grammar → List Grammar → Prop
  | [], hs => hs = []
  | g :: gs, hs => ∃ h hs', hs = h :: hs' ∧ g.Relabelled h ∧ Grammar.AllRelabelled gs hs'

def Assembly.Relabelled : Assembly → Assembly → Prop
  | .done g, b => ∃ g', b = .done g' ∧ g.Relabelled g'
  | .refuse e, b => b = .refuse e
  | .placeholder next, b => ∃ next', b = .placeholder next' ∧ ∀ i, (next i).Relabelled (next' i)
  | .define slot g next, b =>
    ∃ g' next', b = .define slot g' next' ∧ g.Relabelled g' ∧ next.Relabelled next'
  | .deferred _ keeps build next, b =>
    ∃ name' build' next', b = .deferred name' keeps build' next' ∧
      (∀ i, (build i).Relabelled (build' i)) ∧ ∀ i, (next i).Relabelled (next' i)
  | .attempt g text next, b =>
    ∃ g' next', b = .attempt g' text next' ∧ g.Relabelled g' ∧
      ∀ o o', Outcome.SameButLabels o o' → (next o).Relabelled (next' o')
  | .publish name g next, b =>
    ∃ g' next', b = .publish name g' next' ∧ g.Relabelled g' ∧ next.Relabelled next'

end

theorem Leaf.Relabelled.symm {l l' : Leaf} (h : l.Relabelled l') : l'.Relabelled l := by
  cases h with
  | same l => exact .same l
  | fail label label' => exact .fail label' label

theorem Outcome.SameButLabels.symm {o o' : Outcome Value} (h : o.SameButLabels o') :
    o'.SameButLabels o := by
  obtain ⟨ho, ht⟩ := h
  refine ⟨?_, ht.symm⟩
  cases ho with
  | success hv hc => exact .success hv.symm hc.symm
  | failure => exact .failure

namespace Grammar

theorem Relabelled.of_undescribed : ∀ {g h : Grammar}, g.undescribed.Relabelled h → g.Relabelled h
  | .describe g _, _, hg => Relabelled.of_undescribed (g := g) hg
  | .leaf _, _, hg | .map _ _, _, hg | .chain _ _, _, hg | .sequence _, _, hg | .choice _, _, hg
  | .many _, _, hg | .times _ _, _, hg | .separatedBy _ _, _, hg | .separatedBy1 _ _, _, hg
  | .lookahead _, _, hg | .optional _, _, hg | .notFollowedBy _, _, hg | .mark _, _, hg
  | .node _ _, _, hg | .handle _ _, _, hg | .holding _ _, _, hg => hg

theorem Relabelled.of_undescribed_eq {g h k : Grammar} (hg : g.undescribed = k) (hk : k.Relabelled h) :
    g.Relabelled h := by
  subst hg
  exact hk.of_undescribed

/-- A description on the right is not looked at. -/
theorem Relabelled.describe {h : Grammar} {label : String} :
    ∀ {g : Grammar}, g.Relabelled h → g.Relabelled (.describe h label)
  | .describe g _, hg => Relabelled.describe (g := g) hg
  | .leaf _, hg | .map _ _, hg | .chain _ _, hg | .sequence _, hg | .choice _, hg
  | .many _, hg | .times _ _, hg | .separatedBy _ _, hg | .separatedBy1 _ _, hg
  | .lookahead _, hg | .optional _, hg | .notFollowedBy _, hg | .mark _, hg
  | .node _ _, hg | .handle _ _, hg | .holding _ _, hg => hg

end Grammar

mutual

theorem Grammar.Relabelled.symm : ∀ {g h : Grammar}, g.Relabelled h → h.Relabelled g
  | .leaf _, _, ⟨_, hh, hl⟩ => .of_undescribed_eq hh ⟨_, rfl, hl.symm⟩
  | .map _ _, _, ⟨_, hh, hg⟩ | .many _, _, ⟨_, hh, hg⟩ | .times _ _, _, ⟨_, hh, hg⟩
  | .lookahead _, _, ⟨_, hh, hg⟩ | .optional _, _, ⟨_, hh, hg⟩ | .notFollowedBy _, _, ⟨_, hh, hg⟩
  | .mark _, _, ⟨_, hh, hg⟩ | .node _ _, _, ⟨_, hh, hg⟩ | .holding _ _, _, ⟨_, hh, hg⟩ =>
    .of_undescribed_eq hh ⟨_, rfl, hg.symm⟩
  | .chain _ _, _, ⟨_, _, hh, hg, hnext⟩ =>
    .of_undescribed_eq hh ⟨_, _, rfl, hg.symm, fun v => (hnext v).symm⟩
  | .sequence _, _, ⟨_, hh, hgs⟩ | .choice _, _, ⟨_, hh, hgs⟩ =>
    .of_undescribed_eq hh ⟨_, rfl, Grammar.AllRelabelled.symm hgs⟩
  | .separatedBy _ _, _, ⟨_, _, hh, hg, hk⟩ | .separatedBy1 _ _, _, ⟨_, _, hh, hg, hk⟩ =>
    .of_undescribed_eq hh ⟨_, _, rfl, hg.symm, hk.symm⟩
  | .describe g _, _, hg => (Grammar.Relabelled.symm (g := g) hg).describe
  | .handle _ label, _, ⟨_, hh⟩ => .of_undescribed_eq hh ⟨label, rfl⟩

theorem Grammar.AllRelabelled.symm : ∀ {gs hs : List Grammar}, Grammar.AllRelabelled gs hs →
    Grammar.AllRelabelled hs gs
  | [], _, rfl => rfl
  | _ :: _, _, ⟨_, _, rfl, hg, hgs⟩ => ⟨_, _, rfl, hg.symm, Grammar.AllRelabelled.symm hgs⟩

theorem Assembly.Relabelled.symm : ∀ {a b : Assembly}, a.Relabelled b → b.Relabelled a
  | .done _, _, ⟨_, rfl, hg⟩ => ⟨_, rfl, hg.symm⟩
  | .refuse _, _, rfl => rfl
  | .placeholder _, _, ⟨_, rfl, hnext⟩ => ⟨_, rfl, fun i => (hnext i).symm⟩
  | .define _ _ _, _, ⟨_, _, rfl, hg, hnext⟩ | .publish _ _ _, _, ⟨_, _, rfl, hg, hnext⟩ =>
    ⟨_, _, rfl, hg.symm, hnext.symm⟩
  | .deferred _ _ _ _, _, ⟨_, _, _, rfl, hbuild, hnext⟩ =>
    ⟨_, _, _, rfl, fun i => (hbuild i).symm, fun i => (hnext i).symm⟩
  | .attempt _ _ _, _, ⟨_, _, rfl, hg, hnext⟩ =>
    ⟨_, _, rfl, hg.symm, fun _ _ ho => (hnext _ _ ho.symm).symm⟩

end

inductive SlotState.Relabelled : SlotState → SlotState → Prop
  | unfilled : Relabelled .unfilled .unfilled
  | deferred {build build' : Assembly} (h : build.Relabelled build') :
    Relabelled (.deferred build) (.deferred build')
  | filled {g g' : Grammar} (h : g.Relabelled g') : Relabelled (.filled g) (.filled g')
  | released : Relabelled .released .released

namespace Assembly

theorem Relabelled.like : ∀ {a b : Assembly}, a.Relabelled b →
    a.Like Grammar.Relabelled Outcome.SameButLabels b
  | .done _, _, ⟨_, rfl, hg⟩ => .done hg
  | .refuse e, _, rfl => .refuse e
  | .placeholder _, _, ⟨_, rfl, hnext⟩ => .placeholder fun i => (hnext i).like
  | .define slot _ _, _, ⟨_, _, rfl, hg, hnext⟩ => .define slot hg hnext.like
  | .deferred name keeps _ _, _, ⟨name', _, _, rfl, hbuild, hnext⟩ =>
    .deferred name name' keeps (fun i => (hbuild i).like) fun i => (hnext i).like
  | .attempt _ text _, _, ⟨_, _, rfl, hg, hnext⟩ =>
    .attempt text hg fun o o' ho => (hnext o o' ho).like
  | .publish name _ _, _, ⟨_, _, rfl, hg, hnext⟩ => .publish name hg hnext.like

theorem relabelled_of_like {a b : Assembly} (h : a.Like Grammar.Relabelled Outcome.SameButLabels b) :
    a.Relabelled b := by
  induction h with
  | done hg => exact ⟨_, rfl, hg⟩
  | refuse e => rfl
  | placeholder _ ih => exact ⟨_, rfl, ih⟩
  | define slot hg _ ih => exact ⟨_, _, rfl, hg, ih⟩
  | deferred name name' keeps _ _ ihbuild ih => exact ⟨_, _, _, rfl, ihbuild, ih⟩
  | attempt text hg _ ih => exact ⟨_, _, rfl, hg, ih⟩
  | publish name hg _ ih => exact ⟨_, _, rfl, hg, ih⟩

end Assembly

theorem SlotState.relabelled_iff {st st' : SlotState} :
    st.Relabelled st' ↔ st.Like Grammar.Relabelled Outcome.SameButLabels st' := by
  constructor
  · rintro (_ | h | h | _)
    · exact .unfilled
    · exact .deferred h.like
    · exact .filled h
    · exact .released
  · rintro (_ | h | h | _)
    · exact .unfilled
    · exact .deferred (Assembly.relabelled_of_like h)
    · exact .filled h
    · exact .released

namespace Store
variable {s t : Store}

/-- The same slots, and each holds what the other holds but for labels. -/
def Relabelled (s t : Store) : Prop :=
  ∀ i, Option.Rel SlotState.Relabelled (s.stateAt i) (t.stateAt i)

theorem relabelled_iff :
    s.Relabelled t ↔ s.Like Grammar.Relabelled Outcome.SameButLabels t := by
  have hstates : SlotState.Relabelled = SlotState.Like Grammar.Relabelled Outcome.SameButLabels :=
    funext fun _ => funext fun _ => propext SlotState.relabelled_iff
  rw [Relabelled, Like, hstates]

theorem Relabelled.symm (h : s.Relabelled t) : t.Relabelled s :=
  relabelled_iff.mpr ((relabelled_iff.mp h).symm Grammar.Relabelled.symm Outcome.SameButLabels.symm)

end Store
end FurthestFailure
