import FurthestFailure.Store

/-! # Runs that correspond

Two ways of running a parser may start at two cursors and keep two kinds of state. They correspond
when the second ends wherever the first does, both succeed or both fail, and what they leave behind
is related: values, cursors, trails and states. A `Correspondence` fixes the relations; each
combinator then hands the correspondence from its parts on to the whole, whatever the relations are.
-/
namespace FurthestFailure
set_option autoImplicit false

theorem return_eq_some_iff {σ α β : Type} {x : StateT σ Option α} {f : α → β} {s s' : σ} {b : β} :
    (do return f (← x) : StateT σ Option β) s = some (b, s') ↔ ∃ a, x s = some (a, s') ∧ f a = b := by
  constructor
  · intro h
    obtain ⟨⟨a, s''⟩, hx, hf⟩ := Option.bind_eq_some_iff.mp h
    cases hf
    exact ⟨a, hx, rfl⟩
  · rintro ⟨a, hx, rfl⟩
    exact Option.bind_eq_some_iff.mpr ⟨(a, s'), hx, rfl⟩

/-- Where the first result is there, the second one is too, and the two are related. -/
def Follows {α β : Type} (R : α → β → Prop) (x : Option α) (y : Option β) : Prop :=
  ∀ ⦃a⦄, x = some a → ∃ b, y = some b ∧ R a b

namespace Follows
variable {α β σ τ : Type}

theorem none {R : α → β → Prop} {y : Option β} : Follows R .none y := by
  intro a h
  cases h

theorem some {R : α → β → Prop} {a : α} {b : β} (h : R a b) : Follows R (.some a) (.some b) := by
  intro a' ha
  cases ha
  exact ⟨b, rfl, h⟩

theorem mono {R S : α → β → Prop} {x : Option α} {y : Option β} (h : Follows R x y)
    (hRS : ∀ a b, R a b → S a b) : Follows S x y := by
  intro a ha
  obtain ⟨b, hb, hab⟩ := h ha
  exact ⟨b, hb, hRS a b hab⟩

theorem bind {γ δ : Type} {R : α × σ → β × τ → Prop} {S : γ × σ → δ × τ → Prop}
    {x : StateT σ Option α} {y : StateT τ Option β} {f : α → StateT σ Option γ}
    {g : β → StateT τ Option δ} {s : σ} {t : τ} (h : Follows R (x s) (y t))
    (hfg : ∀ a s' b t', R (a, s') (b, t') → Follows S (f a s') (g b t')) :
    Follows S ((x >>= f) s) ((y >>= g) t) := by
  intro r hr
  obtain ⟨⟨a, s'⟩, hx, hf⟩ := Option.bind_eq_some_iff.mp hr
  obtain ⟨⟨b, t'⟩, hy, hab⟩ := h hx
  obtain ⟨r', hg, hrr⟩ := hfg a s' b t' hab hf
  exact ⟨r', Option.bind_eq_some_iff.mpr ⟨(b, t'), hy, hg⟩, hrr⟩

end Follows

/-- Both succeed, with related values and cursors, or both fail. -/
inductive Outcome.Alike {α β : Type} (cursors : Cursor → Cursor → Prop) (V : α → β → Prop) :
    Outcome α → Outcome β → Prop
  | success {s : Success α} {t : Success β} (hv : V s.value t.value) (hc : cursors s.rest t.rest) :
    Alike cursors V (.success s) (.success t)
  | failure {t t' : Trail} : Alike cursors V (.failure t) (.failure t')

theorem Outcome.trail?_withPrior {α : Type} (o : Outcome α) (prior : Option Trail) :
    (o.withPrior prior).trail? = Trail.merge? prior o.trail? := by
  rcases o with ⟨v, c, _ | t⟩ | t <;> cases prior <;> rfl

/-- How two ways of running correspond. `stretch` relates the states before a stretch of the two runs
to the states after it and to the trails that it left; stretches join, and so do their trails. -/
structure Correspondence (σ τ : Type) where
  cursors : Cursor → Cursor → Prop
  ready : σ → τ → Prop
  stretch : σ → τ → σ → τ → Option Trail → Option Trail → Prop
  stay {s : σ} {t : τ} : ready s t → stretch s t s t none none
  ready_after {s s' : σ} {t t' : τ} {a b : Option Trail} : stretch s t s' t' a b → ready s' t'
  join {s s' s'' : σ} {t t' t'' : τ} {a a' b b' : Option Trail} :
    stretch s t s' t' a b → stretch s' t' s'' t'' a' b' →
      stretch s t s'' t'' (Trail.merge? a a') (Trail.merge? b b')
  none_iff {s s' : σ} {t t' : τ} {a b : Option Trail} : stretch s t s' t' a b → (a = none ↔ b = none)
  still_iff {c c' d d' : Cursor} : cursors c d → cursors c' d' →
    (c'.position.index = c.position.index ↔ d'.position.index = d.position.index)
  shorter {c c' d d' : Cursor} : cursors c d → cursors c' d' →
    c'.rest.length < c.rest.length → d'.rest.length < d.rest.length

namespace Correspondence
variable {σ τ : Type} (K : Correspondence σ τ) {α β γ δ : Type}

/-- What two runs that began in the states `s` and `t` leave behind. -/
def Left (V : α → β → Prop) (s : σ) (t : τ) (r : Outcome α × σ) (r' : Outcome β × τ) : Prop :=
  K.stretch s t r.2 r'.2 r.1.trail? r'.1.trail? ∧ Outcome.Alike K.cursors V r.1 r'.1

/-- From corresponding cursors and states, the second parser follows the first. -/
def Agree (V : α → β → Prop) (p : Parser (StateT σ Option) α) (q : Parser (StateT τ Option) β) :
    Prop :=
  ∀ ⦃c d⦄, K.cursors c d → ∀ ⦃s t⦄, K.ready s t → Follows (K.Left V s t) (p c s) (q d t)

variable {K} {V : α → β → Prop} {W : γ → δ → Prop}
variable {p : Parser (StateT σ Option) α} {q : Parser (StateT τ Option) β}

theorem leave {o : Outcome α} {o' : Outcome β} {s s' : σ} {t t' : τ}
    (hs : K.stretch s t s' t' o.trail? o'.trail?) (ho : Outcome.Alike K.cursors V o o') :
    Follows (K.Left V s t) ((pure o : StateT σ Option (Outcome α)) s')
      ((pure o' : StateT τ Option (Outcome β)) t') :=
  Follows.some ⟨hs, ho⟩

theorem Left.after {s s' s'' : σ} {t t' t'' : τ} {a b : Option Trail} {o : Outcome α}
    {o' : Outcome β} (hs : K.stretch s t s' t' a b) (h : K.Left V s' t' (o, s'') (o', t'')) :
    K.Left V s t (o.withPrior a, s'') (o'.withPrior b, t'') := by
  obtain ⟨hs', ho⟩ := h
  constructor
  · simpa only [Outcome.trail?_withPrior] using K.join hs hs'
  · cases ho with
    | success hv hc => exact .success hv hc
    | failure => exact .failure

theorem Agree.map (h : K.Agree V p q) {f : α → γ} {g : β → δ}
    (hfg : ∀ a b, V a b → W (f a) (g b)) : K.Agree W (p.map f) (q.map g) := by
  intro c d hcd s t hst
  refine (h hcd hst).bind ?_
  rintro o s' o' t' ⟨hs, ho⟩
  cases ho with
  | success hv hc => exact leave hs (.success (hfg _ _ hv) hc)
  | failure => exact leave hs .failure

theorem Agree.chain (h : K.Agree V p q) {f : α → Parser (StateT σ Option) γ}
    {g : β → Parser (StateT τ Option) δ} (hfg : ∀ a b, V a b → K.Agree W (f a) (g b)) :
    K.Agree W (p.chain f) (q.chain g) := by
  intro c d hcd s t hst
  refine (h hcd hst).bind ?_
  rintro o s' o' t' ⟨hs, ho⟩
  cases ho with
  | success hv hc =>
    refine (hfg _ _ hv hc (K.ready_after hs)).bind ?_
    intro u s'' u' t'' hu
    exact Follows.some (Left.after hs hu)
  | failure => exact leave hs .failure

theorem Agree.lookahead (h : K.Agree V p q) : K.Agree V p.lookahead q.lookahead := by
  intro c d hcd s t hst
  refine (h hcd hst).bind ?_
  rintro o s' o' t' ⟨hs, ho⟩
  cases ho with
  | success hv _ => exact leave hs (.success hv hcd)
  | failure => exact leave hs .failure

theorem Agree.optional (h : K.Agree V p q) : K.Agree (Option.Rel V) p.optional q.optional := by
  intro c d hcd s t hst
  refine (h hcd hst).bind ?_
  rintro o s' o' t' ⟨hs, ho⟩
  cases ho with
  | success hv hc => exact leave hs (.success (.some hv) hc)
  | failure => exact leave hs (.success .none hcd)

theorem Agree.mark (h : K.Agree V p q) {M : Marker α → Marker β → Prop}
    (hM : ∀ {c d c' d' a b}, K.cursors c d → K.cursors c' d' → V a b →
      M ⟨a, c.position, c'.position⟩ ⟨b, d.position, d'.position⟩) :
    K.Agree M p.mark q.mark := by
  intro c d hcd s t hst
  refine (h hcd hst).bind ?_
  rintro o s' o' t' ⟨hs, ho⟩
  cases ho with
  | success hv hc => exact leave hs (.success (hM hcd hc hv) hc)
  | failure => exact leave hs .failure

/-- Any failure may be met at corresponding cursors, and trails may be dropped and relabelled. -/
structure Permissive (K : Correspondence σ τ) : Prop where
  fail {c d : Cursor} {s : σ} {t : τ} (label : String) : K.cursors c d → K.ready s t →
    K.stretch s t s t (some (.failure c.position label)) (some (.failure d.position label))
  drop {s s' : σ} {t t' : τ} {a b : Option Trail} :
    K.stretch s t s' t' a b → K.stretch s t s' t' none none
  relabel {s s' : σ} {t t' : τ} {a b : Trail} (label : String) :
    K.stretch s t s' t' (some a) (some b) →
      K.stretch s t s' t' (some (a.relabel label)) (some (b.relabel label))
  matched {c c' d d' : Cursor} : K.cursors c d → K.cursors c' d' →
    Text.takeBytes (c'.position.index - c.position.index) c.rest =
      Text.takeBytes (d'.position.index - d.position.index) d.rest

theorem Permissive.agree_fail (hK : K.Permissive) (label : String) :
    K.Agree V (fun c => pure (c.fail label)) fun d => pure (d.fail label) := by
  intro c d hcd s t hst
  exact leave (hK.fail label hcd hst) .failure

theorem Agree.describe (hK : K.Permissive) (h : K.Agree V p q) (label : String) :
    K.Agree V (p.describe label) (q.describe label) := by
  intro c d hcd s t hst
  refine (h hcd hst).bind ?_
  rintro o s' o' t' ⟨hs, ho⟩
  cases ho with
  | success hv hc => exact leave hs (.success hv hc)
  | failure => exact leave (hK.relabel label hs) .failure

theorem Agree.notFollowedBy (hK : K.Permissive) (h : K.Agree V p q) :
    K.Agree Eq p.notFollowedBy q.notFollowedBy := by
  intro c d hcd s t hst
  refine (h hcd hst).bind ?_
  rintro o s' o' t' ⟨hs, ho⟩
  have hs := hK.drop hs
  cases ho with
  | success _ hc =>
    simp only [hK.matched hcd hc]
    exact leave (K.join hs (hK.fail _ hcd (K.ready_after hs))) .failure
  | failure => exact leave hs (.success rfl hcd)

end Correspondence
end FurthestFailure
