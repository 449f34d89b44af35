import FurthestFailure.Proofs.Correspondence.Grammar

/-! # Runs in lockstep

Two runs at the same cursor that end with the very same outcome, while the states they keep are only
related. Such runs hand on everything, so a grammar runs in lockstep as soon as its parts do; only
continuations and handles, which work on the states, remain to be looked at.
-/
namespace FurthestFailure
set_option autoImplicit false

theorem Outcome.Alike.eq {α : Type} {o o' : Outcome α} (h : Outcome.Alike Eq Eq o o')
    (ht : o.trail? = o'.trail?) : o = o' := by
  cases h with
  | @success s t hv hc =>
    obtain ⟨v, c, a⟩ := s
    obtain ⟨w, d, b⟩ := t
    cases hv
    cases hc
    cases ht
    rfl
  | failure =>
    cases ht
    rfl

theorem Cursor.still_iff_of_eq {c c' d d' : Cursor} (h : c = d) (h' : c' = d') :
    c'.position.index = c.position.index ↔ d'.position.index = d.position.index := by
  rw [h, h']

theorem Cursor.shorter_of_eq {c c' d d' : Cursor} (h : c = d) (h' : c' = d') :
    c'.rest.length < c.rest.length → d'.rest.length < d.rest.length := by
  rw [h, h']
  exact id

namespace Correspondence
variable {σ τ : Type} {R : σ → τ → Prop}

/-- Both runs see and leave the same, and their states stay related. -/
def lockstep (R : σ → τ → Prop) : Correspondence σ τ where
  cursors := Eq
  ready := R
  stretch _ _ s t a b := R s t ∧ a = b
  stay h := ⟨h, rfl⟩
  ready_after h := h.1
  join h h' := ⟨h'.1, by rw [h.2, h'.2]⟩
  none_iff h := by rw [h.2]
  still_iff h h' := by rw [h, h']
  shorter h h' := by rw [h, h']; exact id

theorem lockstep_left_iff {s : σ} {t : τ} {r : Outcome Value × σ} {r' : Outcome Value × τ} :
    (lockstep R).Left Eq s t r r' ↔ r.1 = r'.1 ∧ R r.2 r'.2 := by
  obtain ⟨o, s'⟩ := r
  obtain ⟨o', t'⟩ := r'
  constructor
  · rintro ⟨⟨hs, ht⟩, ho⟩
    exact ⟨ho.eq ht, hs⟩
  · rintro ⟨h, hs⟩
    cases h
    refine ⟨⟨hs, rfl⟩, ?_⟩
    cases o with
    | success => exact .success rfl rfl
    | failure => exact .failure

theorem lockstep_permissive : (lockstep R).Permissive where
  fail _ h hs := ⟨hs, by rw [h]⟩
  drop h := ⟨h.1, rfl⟩
  relabel label h := ⟨h.1, by rw [Option.some.inj h.2]⟩
  matched h h' := by rw [h, h']

theorem lockstep_leaf (l : Leaf) :
    (lockstep R).Agree Eq (fun c => pure (l.run c)) fun c => pure (l.run c) := by
  rintro c _ rfl s t hst
  exact Follows.some (lockstep_left_iff.mpr ⟨rfl, hst⟩)

variable {run₁ : Grammar → Parser (StateT σ Option) Value}
variable {run₂ : Grammar → Parser (StateT τ Option) Value}
variable {enter₁ : Nat → StateT σ Option (Option Grammar)}
variable {enter₂ : Nat → StateT τ Option (Option Grammar)}
variable {perform₁ : Assembly → StateT σ Option Grammar}
variable {perform₂ : Assembly → StateT τ Option Grammar}

theorem lockstep_of_parts {g : Grammar}
    (hparts : ∀ p ∈ g.parts, (lockstep R).Agree Eq (run₁ p) (run₂ p))
    (hchain : ∀ h next, g ≠ .chain h next) (hhandle : ∀ slot label, g ≠ .handle slot label) :
    (lockstep R).Agree Eq (g.parser run₁ enter₁ perform₁) (g.parser run₂ enter₂ perform₂) := by
  have hpos : ∀ {c d}, (lockstep R).cursors c d → c.position = d.position :=
    fun h => congrArg Cursor.position h
  cases g with
  | leaf l => exact lockstep_leaf l
  | mark g => exact agree_mark hpos (hparts g (.head _))
  | node g name => exact agree_node hpos (hparts g (.head _)) name
  | _ =>
    exact lockstep_permissive.agree_of_parts hparts (by simp) (by simp) (by simp) hchain hhandle

end Correspondence
end FurthestFailure
