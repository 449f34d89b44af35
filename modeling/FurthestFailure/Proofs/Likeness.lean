import FurthestFailure.Proofs.Correspondence
import FurthestFailure.Proofs.Slots

/-! # Stores whose slots hold alike

Given which grammars and which outcomes are alike, assemblies are alike if they take the same steps with
grammars that are, and stores are alike if their slots hold or put off what is. Runs that correspond on
grammars that are alike then keep the stores alike: what they carry out, build and enter on the one side
has its like on the other.
-/
namespace FurthestFailure
set_option autoImplicit false

section
variable (G : Grammar → Grammar → Prop) (O : Outcome Value → Outcome Value → Prop)

/-- The assemblies do alike with grammars that are alike, and go on alike when they have tried some. -/
inductive Assembly.Like : Assembly → Assembly → Prop
  | done {g h : Grammar} (hg : G g h) : Like (.done g) (.done h)
  | refuse (e : GrammarError) : Like (.refuse e) (.refuse e)
  | placeholder {next next' : Nat → Assembly} (hnext : ∀ i, Like (next i) (next' i)) :
    Like (.placeholder next) (.placeholder next')
  | define (slot : Nat) {g h : Grammar} {next next' : Assembly} (hg : G g h)
    (hnext : Like next next') : Like (.define slot g next) (.define slot h next')
  | deferred (name name' : String) (keeps : List Nat) {build build' next next' : Nat → Assembly}
    (hbuild : ∀ i, Like (build i) (build' i)) (hnext : ∀ i, Like (next i) (next' i)) :
    Like (.deferred name keeps build next) (.deferred name' keeps build' next')
  | attempt (text : List Char) {g h : Grammar} {next next' : Outcome Value → Assembly} (hg : G g h)
    (hnext : ∀ o o', O o o' → Like (next o) (next' o')) :
    Like (.attempt g text next) (.attempt h text next')
  | publish (name : String) {g h : Grammar} {next next' : Assembly} (hg : G g h)
    (hnext : Like next next') : Like (.publish name g next) (.publish name h next')

inductive SlotState.Like : SlotState → SlotState → Prop
  | unfilled : Like .unfilled .unfilled
  | deferred {build build' : Assembly} (h : build.Like G O build') :
    Like (.deferred build) (.deferred build')
  | filled {g h : Grammar} (hg : G g h) : Like (.filled g) (.filled h)
  | released : Like .released .released

/-- The same slots, and what they hold is alike. -/
def Store.Like (s t : Store) : Prop :=
  ∀ i, Option.Rel (SlotState.Like G O) (s.stateAt i) (t.stateAt i)

/-- Both are refused, or the grammars that are made are alike. -/
inductive Assembly.MadeLike : Except GrammarError Grammar → Except GrammarError Grammar → Prop
  | refused (e : GrammarError) : MadeLike (.error e) (.error e)
  | made {g h : Grammar} (hg : G g h) : MadeLike (.ok g) (.ok h)

end

variable {G : Grammar → Grammar → Prop} {O : Outcome Value → Outcome Value → Prop}

theorem Assembly.Like.symm (hG : ∀ {g h}, G g h → G h g) (hO : ∀ {o o'}, O o o' → O o' o)
    {a b : Assembly} (h : a.Like G O b) : b.Like G O a := by
  induction h with
  | done hg => exact .done (hG hg)
  | refuse e => exact .refuse e
  | placeholder _ ih => exact .placeholder ih
  | define slot hg _ ih => exact .define slot (hG hg) ih
  | deferred name name' keeps _ _ ihbuild ih => exact .deferred name' name keeps ihbuild ih
  | attempt text hg _ ih => exact .attempt text (hG hg) fun o o' ho => ih o' o (hO ho)
  | publish name hg _ ih => exact .publish name (hG hg) ih

theorem SlotState.Like.given {st st' : SlotState} {g h : Grammar} (hst : st.Like G O st')
    (hg : G g h) : (st.given g).Like G O (st'.given h) := by
  cases hst with
  | unfilled | deferred => exact .filled hg
  | filled h => exact .filled h
  | released => exact .released

namespace Store.Like
variable {s t : Store}

theorem symm (hG : ∀ {g h}, G g h → G h g) (hO : ∀ {o o'}, O o o' → O o' o) (h : s.Like G O t) :
    t.Like G O s := by
  intro i
  have hi := h i
  generalize s.stateAt i = left, t.stateAt i = right at hi ⊢
  cases hi with
  | none => exact .none
  | some hst =>
    cases hst with
    | unfilled => exact .some .unfilled
    | deferred h => exact .some (.deferred (h.symm hG hO))
    | filled h => exact .some (.filled (hG h))
    | released => exact .some .released

theorem size_eq (h : s.Like G O t) : s.slots.size = t.slots.size := by
  have hnone : ∀ i, s.stateAt i = none ↔ t.stateAt i = none := by
    intro i
    have hi := h i
    generalize s.stateAt i = left, t.stateAt i = right at hi ⊢
    cases hi with
    | some => simp
    | none => simp
  refine Nat.le_antisymm ?_ ?_
  · exact stateAt_eq_none_iff.mp ((hnone _).mpr (stateAt_eq_none_iff.mpr (Nat.le_refl _)))
  · exact stateAt_eq_none_iff.mp ((hnone _).mp (stateAt_eq_none_iff.mpr (Nat.le_refl _)))

theorem push (h : s.Like G O t) {a b : Slot} (hab : a.state.Like G O b.state) :
    Store.Like G O { s with slots := s.slots.push a } { t with slots := t.slots.push b } := by
  intro i
  rw [stateAt_push, stateAt_push, h.size_eq]
  split
  · exact .some hab
  · exact h i

theorem defined (h : s.Like G O t) (slot : Nat) {g k : Grammar} (hg : G g k) :
    (s.defined slot g).Like G O (t.defined slot k) := by
  intro i
  rw [stateAt_defined, stateAt_defined]
  split
  · have hslot := h slot
    generalize s.stateAt slot = left, t.stateAt slot = right at hslot ⊢
    cases hslot with
    | some hst => exact .some (hst.given hg)
    | none => exact .none
  · exact h i

theorem counted (h : s.Like G O t) (slot : Nat) : (s.counted slot).Like G O (t.counted slot) := by
  intro i
  rw [stateAt_counted, stateAt_counted]
  exact h i

theorem filled? (h : s.Like G O t) (slot : Nat) :
    Option.Rel G (s.filled? slot) (t.filled? slot) := by
  have hslot := h slot
  generalize hi : s.stateAt slot = left, hj : t.stateAt slot = right at hslot
  simp only [Store.filled?, hi, hj]
  cases hslot with
  | none => exact .none
  | some hst =>
    cases hst with
    | filled hg => exact .some hg
    | unfilled | deferred | released => exact .none

/-- A slot is put off in both stores or in none. -/
theorem deferred_or (h : s.Like G O t) (slot : Nat) :
    (∃ build build', s.stateAt slot = some (.deferred build) ∧
        t.stateAt slot = some (.deferred build') ∧ build.Like G O build') ∨
      (∀ build, s.stateAt slot ≠ some (.deferred build)) ∧
        ∀ build, t.stateAt slot ≠ some (.deferred build) := by
  have hslot := h slot
  generalize s.stateAt slot = left, t.stateAt slot = right at hslot ⊢
  cases hslot with
  | none => exact .inr ⟨nofun, nofun⟩
  | some hst =>
    cases hst with
    | deferred hbuild => exact .inl ⟨_, _, rfl, rfl, hbuild⟩
    | unfilled | filled | released => exact .inr ⟨nofun, nofun⟩

end Store.Like

namespace Correspondence
variable {K : Correspondence Store Store} {V : Value → Value → Prop}

/-- The correspondence is between stores that are alike. Outcomes that correspond are alike, and a
stretch that leaves no trail says no more than that the stores are. -/
structure Likens (K : Correspondence Store Store) (V : Value → Value → Prop)
    (G : Grammar → Grammar → Prop) (O : Outcome Value → Outcome Value → Prop) : Prop where
  cursors (c : Cursor) : K.cursors c c
  ready {s t : Store} : s.Like G O t → K.ready s t
  stores {s t : Store} : K.ready s t → s.Like G O t
  outcomes {s t : Store} {r r' : Outcome Value × Store} : K.Left V s t r r' → O r.1 r'.1
  stretch {s t s' t' : Store} : s'.Like G O t' → K.stretch s t s' t' none none

variable {run₁ run₂ : Grammar → Parser Engine Value} (hK : K.Likens V G O)
variable (hrun : ∀ {g h}, G g h → K.Agree V (run₁ g) (run₂ h))
include hK hrun

theorem Likens.perform {a b : Assembly} (hab : a.Like G O b) {s t : Store} (hst : s.Like G O t) :
    Follows (fun r r' => Assembly.MadeLike G r.1 r'.1 ∧ r.2.Like G O r'.2) (a.perform run₁ s)
      (b.perform run₂ t) := by
  induction hab generalizing s t with
  | done hg => exact Follows.some ⟨.made hg, hst⟩
  | refuse e => exact Follows.some ⟨.refused e, hst⟩
  | @placeholder next next' _ ih =>
    have hpushed := hst.push (a := { state := .unfilled }) (b := { state := .unfilled }) .unfilled
    change Follows _ ((next s.slots.size).perform run₁ _) ((next' t.slots.size).perform run₂ _)
    rw [← hst.size_eq]
    exact ih _ hpushed
  | define slot hg _ ih =>
    rw [Assembly.perform_define, Assembly.perform_define]
    exact ih (hst.defined slot hg)
  | deferred name name' keeps hbuild _ _ ih =>
    rw [Assembly.perform_deferred, Assembly.perform_deferred, hst.size_eq]
    exact ih _ (hst.push (.deferred (hbuild _)))
  | attempt text hg _ ih =>
    refine Follows.bind (hrun hg (hK.cursors _) (hK.ready hst)) ?_
    intro o s' o' t' h
    exact ih o o' (hK.outcomes h) (hK.stores (K.ready_after h.1))
  | publish name _ _ ih => exact ih hst

theorem Likens.performed {a b : Assembly} (hab : a.Like G O b) {s t : Store} (hst : s.Like G O t) :
    Follows (fun r r' => G r.1 r'.1 ∧ r.2.Like G O r'.2) (a.performed run₁ s)
      (b.performed run₂ t) := by
  refine (hK.perform hrun hab hst).bind ?_
  rintro r s' r' t' ⟨hr, hst'⟩
  cases hr with
  | refused => exact Follows.none
  | made hg => exact Follows.some ⟨hg, hst'⟩

theorem Likens.enter (slot : Nat) {s t : Store} (hst : s.Like G O t) :
    Follows (fun r r' => Option.Rel G r.1 r'.1 ∧ r.2.Like G O r'.2) (Store.enter run₁ slot s)
      (Store.enter run₂ slot t) := by
  rcases hst.deferred_or slot with ⟨build, build', hs, ht, hbuild⟩ | ⟨hs, ht⟩
  · intro r hr
    obtain ⟨g, after, hb⟩ := Store.exists_performed_of_enter hs hr
    rw [Store.enter_of_performed hs hb] at hr
    cases hr
    obtain ⟨⟨g', after'⟩, hb', hg, hst'⟩ := hK.performed hrun hbuild (hst.counted slot) hb
    have hdefined := hst'.defined slot hg
    exact ⟨_, Store.enter_of_performed ht hb', hdefined.filled? slot, hdefined⟩
  · rw [Store.enter_of_not_deferred hs, Store.enter_of_not_deferred ht]
    exact Follows.some ⟨hst.filled? slot, hst⟩

theorem Likens.assembling {a b : Assembly} (hab : a.Like G O b) :
    K.Agree V (fun c => do run₁ (← a.performed run₁) c) (fun c => do run₂ (← b.performed run₂) c) := by
  intro c d hcd s t hst
  refine (hK.performed hrun hab (hK.stores hst)).bind ?_
  rintro g s' h t' ⟨hg, hst'⟩
  refine (hrun hg hcd (hK.ready hst')).mono fun r r' h => ?_
  simpa using Left.after (hK.stretch hst') h

theorem Likens.entering (slot : Nat) {p q : Parser Engine Value} (hempty : K.Agree V p q) :
    K.Agree V (fun c => do match ← Store.enter run₁ slot with | some g => run₁ g c | none => p c)
      (fun c => do match ← Store.enter run₂ slot with | some g => run₂ g c | none => q c) := by
  intro c d hcd s t hst
  refine (hK.enter hrun slot (hK.stores hst)).bind ?_
  rintro found s' found' t' ⟨hfound, hst'⟩
  cases hfound with
  | some hg =>
    refine (hrun hg hcd (hK.ready hst')).mono fun r r' h => ?_
    simpa using Left.after (hK.stretch hst') h
  | none =>
    refine (hempty hcd (hK.ready hst')).mono fun r r' h => ?_
    simpa using Left.after (hK.stretch hst') h

end Correspondence
end FurthestFailure
