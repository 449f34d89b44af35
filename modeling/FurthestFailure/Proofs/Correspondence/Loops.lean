import FurthestFailure.Proofs.Correspondence
import Mathlib.Data.List.Forall2

/-! # Loops that correspond

The loops carry the values and the trail of the rounds before. Each lemma is about a loop in the
middle of its work: `s₀` and `t₀` are the states in which it began, and the stretch from there to the
present states has left the trails that the loop carries.
-/
namespace FurthestFailure.Correspondence
set_option autoImplicit false

variable {σ τ α β γ δ : Type} {K : Correspondence σ τ} {V : α → β → Prop} {W : γ → δ → Prop}
variable {s₀ s : σ} {t₀ t : τ} {a b : Option Trail} {c d : Cursor}

theorem stop {values : List α} {values' : List β} (hs : K.stretch s₀ t₀ s t a b)
    (hcd : K.cursors c d) (hv : List.Forall₂ V values values') :
    Follows (K.Left (List.Forall₂ V) s₀ t₀)
      ((pure (.success ⟨values.reverse, c, a⟩) : StateT σ Option (Outcome (List α))) s)
      ((pure (.success ⟨values'.reverse, d, b⟩) : StateT τ Option (Outcome (List β))) t) :=
  leave hs (.success (List.forall₂_reverse_iff.mpr hv) hcd)

theorem Agree.sequenceFrom {ps : List (Parser (StateT σ Option) α)}
    {qs : List (Parser (StateT τ Option) β)} (h : List.Forall₂ (K.Agree V) ps qs)
    {values : List α} {values' : List β} (hs : K.stretch s₀ t₀ s t a b) (hcd : K.cursors c d)
    (hv : List.Forall₂ V values values') :
    Follows (K.Left (List.Forall₂ V) s₀ t₀) (Parser.sequenceFrom ps values a c s)
      (Parser.sequenceFrom qs values' b d t) := by
  induction h generalizing s t a b c d values values' with
  | nil => exact stop hs hcd hv
  | cons hp _ ih =>
    refine (hp hcd (K.ready_after hs)).bind ?_
    rintro o s' o' t' ⟨hs', ho⟩
    cases ho with
    | success hvw hc => exact ih (K.join hs hs') hc (.cons hvw hv)
    | failure => exact Follows.some (Left.after hs ⟨hs', .failure⟩)

theorem Agree.sequence {ps : List (Parser (StateT σ Option) α)}
    {qs : List (Parser (StateT τ Option) β)} (h : List.Forall₂ (K.Agree V) ps qs) :
    K.Agree (List.Forall₂ V) (Parser.sequence ps) (Parser.sequence qs) := by
  intro c d hcd s t hst
  exact Agree.sequenceFrom h (K.stay hst) hcd .nil

/-- A choice that still has an alternative, or has tried one, does not fail for lack of any. -/
theorem Agree.choiceFrom {ps : List (Parser (StateT σ Option) α)}
    {qs : List (Parser (StateT τ Option) β)} (h : List.Forall₂ (K.Agree V) ps qs)
    (hs : K.stretch s₀ t₀ s t a b) (hcd : K.cursors c d) (hsome : ps = [] → a ≠ none) :
    Follows (K.Left V s₀ t₀) (Parser.choiceFrom ps a c s) (Parser.choiceFrom qs b d t) := by
  induction h generalizing s t a b with
  | nil =>
    have ha := hsome rfl
    have hb : b ≠ none := fun hb => ha ((K.none_iff hs).mpr hb)
    obtain ⟨u, rfl⟩ := Option.ne_none_iff_exists'.mp ha
    obtain ⟨u', rfl⟩ := Option.ne_none_iff_exists'.mp hb
    exact Follows.some ⟨hs, .failure⟩
  | cons hp _ ih =>
    refine (hp hcd (K.ready_after hs)).bind ?_
    rintro o s' o' t' ⟨hs', ho⟩
    cases ho with
    | success hv hc => exact Follows.some (Left.after hs ⟨hs', .success hv hc⟩)
    | failure =>
      refine ih (K.join hs hs') fun _ => ?_
      cases a <;> exact Option.some_ne_none _

theorem Agree.choice {ps : List (Parser (StateT σ Option) α)}
    {qs : List (Parser (StateT τ Option) β)} (h : List.Forall₂ (K.Agree V) ps qs) (hps : ps ≠ []) :
    K.Agree V (Parser.choice ps) (Parser.choice qs) := by
  intro c d hcd s t hst
  exact Agree.choiceFrom h (K.stay hst) hcd (absurd · hps)

variable {p : Parser (StateT σ Option) α} {q : Parser (StateT τ Option) β}

theorem Agree.timesFrom (h : K.Agree V p q) (count : Nat) {values : List α} {values' : List β}
    (hs : K.stretch s₀ t₀ s t a b) (hcd : K.cursors c d) (hv : List.Forall₂ V values values') :
    Follows (K.Left (List.Forall₂ V) s₀ t₀) (p.timesFrom count values a c s)
      (q.timesFrom count values' b d t) := by
  induction count generalizing s t a b c d values values' with
  | zero => exact stop hs hcd hv
  | succ count ih =>
    refine (h hcd (K.ready_after hs)).bind ?_
    rintro o s' o' t' ⟨hs', ho⟩
    cases ho with
    | success hvw hc => exact ih (K.join hs hs') hc (.cons hvw hv)
    | failure => exact Follows.some (Left.after hs ⟨hs', .failure⟩)

theorem Agree.times (h : K.Agree V p q) (count : Nat) :
    K.Agree (List.Forall₂ V) (p.times count) (q.times count) := by
  intro c d hcd s t hst
  exact h.timesFrom count (K.stay hst) hcd .nil

/-- A loop that has no more rounds left goes on no longer. -/
theorem roundsLeft_le {n m : Nat} (hnm : n ≤ m) (hcd : K.cursors c d) {c' d' : Cursor}
    (hcd' : K.cursors c' d') : Parser.roundsLeft n c c' ≤ Parser.roundsLeft m d d' := by
  rw [Parser.roundsLeft, Parser.roundsLeft]
  split
  · next hl =>
    rw [if_pos (K.shorter hcd hcd' hl)]
    exact hnm
  · split
    · exact Nat.le_trans (Nat.sub_le n 1) hnm
    · exact Nat.sub_le_sub_right hnm 1

theorem goesOn {n m : Nat} (hnm : n ≤ m) (hcd : K.cursors c d) {c' d' : Cursor}
    (hcd' : K.cursors c' d') (h : c'.rest.length < c.rest.length ∨ 0 < n) :
    d'.rest.length < d.rest.length ∨ 0 < m :=
  h.imp (K.shorter hcd hcd') (Nat.lt_of_lt_of_le · hnm)

/-- The second loop may have more rounds. -/
theorem Agree.manyFrom (h : K.Agree V p q) {n m : Nat} (hnm : n ≤ m) {values : List α}
    {values' : List β} (hs : K.stretch s₀ t₀ s t a b) (hcd : K.cursors c d)
    (hv : List.Forall₂ V values values') :
    Follows (K.Left (List.Forall₂ V) s₀ t₀) (p.manyFrom n values a c s)
      (q.manyFrom m values' b d t) := by
  induction n, c using Parser.rounds_induction generalizing m s t a b d values values' with
  | round n c ih =>
    rw [Parser.manyFrom, Parser.manyFrom]
    refine (h hcd (K.ready_after hs)).bind ?_
    rintro o s' o' t' ⟨hs', ho⟩
    cases ho with
    | failure => exact stop (K.join hs hs') hcd hv
    | @success u u' hvw hc =>
      have hstill := K.still_iff hcd hc
      by_cases hi : u.rest.position.index = c.position.index
      · simp only [if_pos hi, if_pos (hstill.mp hi)]
        exact stop (K.join hs hs') hcd hv
      · simp only [if_neg hi, if_neg (mt hstill.mpr hi)]
        by_cases hl : u.rest.rest.length < c.rest.length ∨ 0 < n
        · simp only [dif_pos hl, dif_pos (goesOn hnm hcd hc hl)]
          exact ih _ hl (roundsLeft_le hnm hcd hc) (K.join hs hs') hc (.cons hvw hv)
        · simp only [dif_neg hl]
          exact Follows.none

theorem Agree.many (h : K.Agree V p q) : K.Agree (List.Forall₂ V) p.many q.many := by
  intro c d hcd s t hst
  exact h.manyFrom (Nat.le_refl _) (K.stay hst) hcd .nil

variable {sep : Parser (StateT σ Option) γ} {sep' : Parser (StateT τ Option) δ}

theorem Agree.separatedFrom (h : K.Agree V p q) (hsep : K.Agree W sep sep') {n m : Nat}
    (hnm : n ≤ m) {values : List α} {values' : List β} (hs : K.stretch s₀ t₀ s t a b)
    (hcd : K.cursors c d) (hv : List.Forall₂ V values values') :
    Follows (K.Left (List.Forall₂ V) s₀ t₀) (Parser.separatedFrom p sep n values a c s)
      (Parser.separatedFrom q sep' m values' b d t) := by
  induction n, c using Parser.rounds_induction generalizing m s t a b d values values' with
  | round n c ih =>
    rw [Parser.separatedFrom, Parser.separatedFrom]
    refine (hsep hcd (K.ready_after hs)).bind ?_
    rintro o s' o' t' ⟨hs', ho⟩
    cases ho with
    | failure => exact stop (K.join hs hs') hcd hv
    | success _ hc =>
      have hs' := K.join hs hs'
      refine (h hc (K.ready_after hs')).bind ?_
      rintro o s'' o' t'' ⟨hs'', ho⟩
      cases ho with
      | failure => exact Follows.some (Left.after hs' ⟨hs'', .failure⟩)
      | @success u u' hvw hc' =>
        by_cases hl : u.rest.rest.length < c.rest.length ∨ 0 < n
        · simp only [dif_pos hl, dif_pos (goesOn hnm hcd hc' hl)]
          exact ih _ hl (roundsLeft_le hnm hcd hc') (K.join hs' hs'') hc' (.cons hvw hv)
        · simp only [dif_neg hl]
          exact Follows.none

theorem Agree.separatedBy (h : K.Agree V p q) (hsep : K.Agree W sep sep') :
    K.Agree (List.Forall₂ V) (p.separatedBy sep) (q.separatedBy sep') := by
  intro c d hcd s t hst
  refine (h hcd hst).bind ?_
  rintro o s' o' t' ⟨hs, ho⟩
  cases ho with
  | success hv hc => exact h.separatedFrom hsep (Nat.le_refl _) hs hc (.cons hv .nil)
  | failure => exact leave hs (.success .nil hcd)

theorem Agree.separatedBy1 (h : K.Agree V p q) (hsep : K.Agree W sep sep') :
    K.Agree (List.Forall₂ V) (p.separatedBy1 sep) (q.separatedBy1 sep') := by
  intro c d hcd s t hst
  refine (h hcd hst).bind ?_
  rintro o s' o' t' ⟨hs, ho⟩
  cases ho with
  | success hv hc => exact h.separatedFrom hsep (Nat.le_refl _) hs hc (.cons hv .nil)
  | failure => exact leave hs .failure

end FurthestFailure.Correspondence
