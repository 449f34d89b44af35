import FurthestFailure.Proofs.Correspondence.Loops
import FurthestFailure.Proofs.Everywhere

/-! # Grammars whose runs correspond

If two ways of running correspond on grammars of a kind, and so do their ways to carry assemblies out
and to enter slots, then they correspond on what the grammars of the kind combine.
-/
namespace FurthestFailure
set_option autoImplicit false

/-- The grammar hands on what its parts yield, and adds no failure of its own. -/
def Grammar.Combines : Grammar → Prop
  | .leaf _ | .notFollowedBy _ | .describe _ _ | .mark _ | .node _ _ | .handle _ _ => False
  | .choice gs => gs ≠ []
  | .map _ _ | .chain _ _ | .sequence _ | .many _ | .times _ _ | .separatedBy _ _
  | .separatedBy1 _ _ | .lookahead _ | .optional _ | .holding _ _ => True

namespace Correspondence
variable {σ τ : Type} {K : Correspondence σ τ} {P : Grammar → Prop}

/-- The same grammar of the kind, or none, was found on both sides, and no trail was left. -/
def Found (K : Correspondence σ τ) (P : Grammar → Prop) (s : σ) (t : τ) (r : Option Grammar × σ)
    (r' : Option Grammar × τ) : Prop :=
  r.1 = r'.1 ∧ (∀ g, r.1 = some g → g.Everywhere P) ∧ K.stretch s t r.2 r'.2 none none

def Assembled (K : Correspondence σ τ) (P : Grammar → Prop) (s : σ) (t : τ) (r : Grammar × σ)
    (r' : Grammar × τ) : Prop :=
  r.1 = r'.1 ∧ r.1.Everywhere P ∧ K.stretch s t r.2 r'.2 none none

variable {run₁ : Grammar → Parser (StateT σ Option) Value}
variable {run₂ : Grammar → Parser (StateT τ Option) Value}
variable (hrun : ∀ g, g.Everywhere P → K.Agree Eq (run₁ g) (run₂ g))
include hrun

theorem Agree.entering {enter₁ : StateT σ Option (Option Grammar)}
    {enter₂ : StateT τ Option (Option Grammar)} {p : Parser (StateT σ Option) Value}
    {q : Parser (StateT τ Option) Value}
    (henter : ∀ s t, K.ready s t → Follows (K.Found P s t) (enter₁ s) (enter₂ t))
    (hempty : K.Agree Eq p q) :
    K.Agree Eq (fun c => do match ← enter₁ with | some g => run₁ g c | none => p c)
      (fun c => do match ← enter₂ with | some g => run₂ g c | none => q c) := by
  intro c d hcd s t hst
  refine (henter s t hst).bind ?_
  rintro g s' g' t' ⟨rfl, hg, hs⟩
  have hst' := K.ready_after hs
  cases g with
  | none =>
    refine (hempty hcd hst').mono fun r r' h => ?_
    simpa using Left.after hs h
  | some g =>
    refine (hrun g (hg g rfl) hcd hst').mono fun r r' h => ?_
    simpa using Left.after hs h

theorem Agree.assembling {perform₁ : StateT σ Option Grammar} {perform₂ : StateT τ Option Grammar}
    (hperform : ∀ s t, K.ready s t → Follows (K.Assembled P s t) (perform₁ s) (perform₂ t)) :
    K.Agree Eq (fun c => do run₁ (← perform₁) c) (fun c => do run₂ (← perform₂) c) := by
  intro c d hcd s t hst
  refine (hperform s t hst).bind ?_
  rintro g s' g' t' ⟨rfl, hg, hs⟩
  refine (hrun g hg hcd (K.ready_after hs)).mono fun r r' h => ?_
  simpa using Left.after hs h

omit hrun in
theorem agree_list {p : Parser (StateT σ Option) (List Value)}
    {q : Parser (StateT τ Option) (List Value)} (h : K.Agree (List.Forall₂ Eq) p q) :
    K.Agree Eq (p.map Value.list) (q.map Value.list) := by
  refine Agree.map h fun l l' hl => ?_
  rw [List.forall₂_eq_eq_eq] at hl
  rw [hl]

omit hrun in
theorem agree_of_parts {enter₁ : Nat → StateT σ Option (Option Grammar)}
    {enter₂ : Nat → StateT τ Option (Option Grammar)}
    {perform₁ : Assembly → StateT σ Option Grammar} {perform₂ : Assembly → StateT τ Option Grammar}
    {g : Grammar} (hparts : ∀ p ∈ g.parts, K.Agree Eq (run₁ p) (run₂ p)) (hc : g.Combines)
    (hchain : ∀ h next, g ≠ .chain h next) :
    K.Agree Eq (g.parser run₁ enter₁ perform₁) (g.parser run₂ enter₂ perform₂) := by
  have hall : List.Forall₂ (K.Agree Eq) (g.parts.map run₁) (g.parts.map run₂) := by
    rw [List.forall₂_map_left_iff, List.forall₂_map_right_iff, List.forall₂_same]
    exact hparts
  cases g with
  | leaf | notFollowedBy | describe | mark | node | handle => exact hc.elim
  | chain h next => exact absurd rfl (hchain h next)
  | map g f => exact Agree.map (hparts g (.head _)) fun a b hab => congrArg f hab
  | sequence gs => exact agree_list (Agree.sequence hall)
  | choice gs =>
    have hne : gs.map run₁ ≠ [] := by simpa [Grammar.Combines] using hc
    exact Agree.choice hall hne
  | many g => exact agree_list (hparts g (.head _)).many
  | times g count => exact agree_list ((hparts g (.head _)).times count)
  | separatedBy g h =>
    exact agree_list ((hparts g (.head _)).separatedBy (hparts h (.tail _ (.head _))))
  | separatedBy1 g h =>
    exact agree_list ((hparts g (.head _)).separatedBy1 (hparts h (.tail _ (.head _))))
  | lookahead g => exact (hparts g (.head _)).lookahead
  | optional g =>
    refine Agree.map (hparts g (.head _)).optional ?_
    intro a b hab
    cases hab with
    | some hab => rw [hab]
    | none => rfl
  | holding slots g => exact hparts g (.head _)

theorem agree_of_combines {enter₁ : Nat → StateT σ Option (Option Grammar)}
    {enter₂ : Nat → StateT τ Option (Option Grammar)}
    {perform₁ : Assembly → StateT σ Option Grammar} {perform₂ : Assembly → StateT τ Option Grammar}
    (hperform : ∀ a, a.Everywhere P → ∀ s t, K.ready s t →
      Follows (K.Assembled P s t) (perform₁ a s) (perform₂ a t))
    {g : Grammar} (hg : g.Everywhere P) (hc : g.Combines) :
    K.Agree Eq (g.parser run₁ enter₁ perform₁) (g.parser run₂ enter₂ perform₂) := by
  by_cases hchain : ∃ h next, g = .chain h next
  · obtain ⟨g, next, rfl⟩ := hchain
    obtain ⟨_, hg, hnext⟩ := hg
    refine Agree.chain (f := fun v c => do run₁ (← perform₁ (next v)) c)
      (g := fun v c => do run₂ (← perform₂ (next v)) c) (hrun g hg) ?_
    rintro v _ rfl
    exact Agree.assembling hrun (hperform _ (hnext v))
  · exact agree_of_parts (fun p hp => hrun p (hg.part hp)) hc
      fun h next heq => hchain ⟨h, next, heq⟩

omit hrun in
/-- With a permissive correspondence, any grammar but a leaf, a mark, a continuation and a handle
corresponds to itself if its parts do. -/
theorem Permissive.agree_of_parts (hK : K.Permissive)
    {enter₁ : Nat → StateT σ Option (Option Grammar)}
    {enter₂ : Nat → StateT τ Option (Option Grammar)}
    {perform₁ : Assembly → StateT σ Option Grammar} {perform₂ : Assembly → StateT τ Option Grammar}
    {g : Grammar} (hparts : ∀ p ∈ g.parts, K.Agree Eq (run₁ p) (run₂ p))
    (hleaf : ∀ l, g ≠ .leaf l) (hmark : ∀ h, g ≠ .mark h) (hnode : ∀ h name, g ≠ .node h name)
    (hchain : ∀ h next, g ≠ .chain h next) (hhandle : ∀ slot label, g ≠ .handle slot label) :
    K.Agree Eq (g.parser run₁ enter₁ perform₁) (g.parser run₂ enter₂ perform₂) := by
  by_cases hc : g.Combines
  · exact Correspondence.agree_of_parts hparts hc hchain
  · cases g with
    | leaf l => exact absurd rfl (hleaf l)
    | mark h => exact absurd rfl (hmark h)
    | node h name => exact absurd rfl (hnode h name)
    | handle slot label => exact absurd rfl (hhandle slot label)
    | choice gs =>
      obtain rfl : gs = [] := by simpa [Grammar.Combines] using hc
      exact hK.agree_fail "no alternatives"
    | notFollowedBy g =>
      exact Agree.map (Agree.notFollowedBy hK (hparts g (.head _))) fun _ _ _ => rfl
    | describe g label => exact Agree.describe hK (hparts g (.head _)) label
    | map | chain | sequence | many | times | separatedBy | separatedBy1 | lookahead | optional
      | holding => exact absurd trivial hc

/-- With a permissive correspondence, every grammar but a leaf or a mark corresponds to itself if its
parts do. -/
theorem Permissive.agree_parser (hK : K.Permissive)
    {enter₁ : Nat → StateT σ Option (Option Grammar)}
    {enter₂ : Nat → StateT τ Option (Option Grammar)}
    {perform₁ : Assembly → StateT σ Option Grammar} {perform₂ : Assembly → StateT τ Option Grammar}
    (henter : ∀ slot s t, K.ready s t → Follows (K.Found P s t) (enter₁ slot s) (enter₂ slot t))
    (hperform : ∀ a, a.Everywhere P → ∀ s t, K.ready s t →
      Follows (K.Assembled P s t) (perform₁ a s) (perform₂ a t))
    {g : Grammar} (hg : g.Everywhere P) (hleaf : ∀ l, g ≠ .leaf l) (hmark : ∀ h, g ≠ .mark h)
    (hnode : ∀ h name, g ≠ .node h name) :
    K.Agree Eq (g.parser run₁ enter₁ perform₁) (g.parser run₂ enter₂ perform₂) := by
  by_cases hc : g.Combines
  · exact agree_of_combines hrun hperform hg hc
  · by_cases hhandle : ∃ slot label, g = .handle slot label
    · obtain ⟨slot, label, rfl⟩ := hhandle
      exact Agree.entering hrun (henter slot) (hK.agree_fail label)
    · refine hK.agree_of_parts (fun p hp => hrun p (hg.part hp)) hleaf hmark hnode ?_ ?_
      · rintro h next rfl
        exact hc trivial
      · exact fun slot label heq => hhandle ⟨slot, label, heq⟩

omit hrun in
theorem agree_mark (hpos : ∀ {c d}, K.cursors c d → c.position = d.position)
    {p : Parser (StateT σ Option) Value} {q : Parser (StateT τ Option) Value}
    (h : K.Agree Eq p q) :
    K.Agree Eq (p.mark.map Value.ofMarker) (q.mark.map Value.ofMarker) := by
  refine Agree.map (Agree.mark (M := Eq) h ?_) fun a b hab => congrArg _ hab
  rintro c d c' d' a _ hcd hcd' rfl
  rw [hpos hcd, hpos hcd']

omit hrun in
theorem agree_node (hpos : ∀ {c d}, K.cursors c d → c.position = d.position)
    {p : Parser (StateT σ Option) Value} {q : Parser (StateT τ Option) Value}
    (h : K.Agree Eq p q) (name : String) :
    K.Agree Eq ((p.node name).map Value.ofNamedMarker) ((q.node name).map Value.ofNamedMarker) := by
  refine Agree.map (Agree.map (Agree.mark (M := Eq) h ?_) fun a b hab => congrArg _ hab)
    fun a b hab => congrArg _ hab
  rintro c d c' d' a _ hcd hcd' rfl
  rw [hpos hcd, hpos hcd']

end Correspondence
end FurthestFailure
