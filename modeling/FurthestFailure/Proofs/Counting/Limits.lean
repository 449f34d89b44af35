import FurthestFailure.Proofs.Counting
import FurthestFailure.Proofs.Repeating

/-! # How often a parser can be repeated

A parser that always takes something can be repeated so often and no more, whichever loop repeats it: one
that goes on as long as it can, one that counts, or one that does the one after the other. All run the
parser at the same places one after the other. If the count is too great they meet the same failure, in
the round that is one too many, and the unread text bounds how many rounds there can be.
-/
namespace FurthestFailure
set_option autoImplicit false

theorem Cursor.Reached.index_le_add {text : List Char} {c d : Cursor} (hc : c.Reached text)
    (hd : d.Reached text) (hle : c.position.index ≤ d.position.index) :
    d.position.index ≤ c.position.index + Text.byteLength c.rest := by
  obtain ⟨matched, hrest, rfl⟩ := hc.exists_between hd hle
  rw [hrest, Cursor.index_advance, Text.byteLength_append]
  omega

namespace Parser
variable {σ α : Type} {p : Parser (StateT σ Option) α} {text : List Char} {I : σ → Prop}
variable {c : Cursor} {s s' : σ} {w : Success (List α)} {count : Nat}

namespace Repeats

/-- As many repetitions as are wanted are there if there are that many at all. -/
theorem times_of_le (h : Repeats p c s w s') (hcount : count ≤ w.value.length) :
    ∃ rest b t, p.times count c s = some (.success ⟨w.value.take count, rest, b⟩, t) := by
  induction h generalizing count with
  | failed h | still h =>
    obtain rfl := Nat.le_zero.mp hcount
    exact ⟨_, _, _, rfl⟩
  | moved h _ _ ih =>
    cases count with
    | zero => exact ⟨_, _, _, rfl⟩
    | succ count =>
      obtain ⟨rest, b, t, htimes⟩ := ih (Nat.le_of_succ_le_succ hcount)
      exact ⟨_, _, _, times_of_success h htimes⟩

section
variable (hp : p.GoesOn text I)
include hp

theorem atLeast_of_le (hc : c.Reached text) (hs : I s) (h : Repeats p c s w s')
    (hcount : count ≤ w.value.length) : p.atLeast count c s = some (.success w, s') := by
  induction h generalizing count with
  | failed h =>
    obtain rfl := Nat.le_zero.mp hcount
    rw [atLeast_zero]
    exact manyWithin_of_failed h
  | still h hi =>
    obtain rfl := Nat.le_zero.mp hcount
    rw [atLeast_zero]
    exact manyWithin_of_still h hi
  | moved h hi hmore ih =>
    cases count with
    | zero =>
      rw [atLeast_zero]
      exact hp.many_of_repeats hc hs (.moved h hi hmore)
    | succ count =>
      have hlater := ih (hp.reached hc hs h) (hp.kept hc hs h) (Nat.le_of_succ_le_succ hcount)
      exact atLeast_of_success h hlater

theorem length_le (hc : c.Reached text) (hs : I s) (h : Repeats p c s w s') :
    c.position.index + w.value.length ≤ w.rest.position.index := by
  induction h with
  | failed | still => exact Nat.le_refl _
  | @moved c _ _ _ u w h hi _ ih =>
    have hle := hp.onward hc hs h
    have hmore := ih (hp.reached hc hs h) (hp.kept hc hs h)
    simp only [List.length_cons]
    omega

/-- The round that is one too many is the one that ends the repetition. -/
theorem times_of_lt (hconsumes : p.Consumes text I) (hc : c.Reached text) (hs : I s)
    (h : Repeats p c s w s') (hcount : w.value.length < count) :
    ∃ t, w.furthest = some t ∧ p.times count c s = some (.failure t, s') := by
  induction h generalizing count with
  | failed h =>
    obtain ⟨count, rfl⟩ := Nat.exists_eq_add_of_lt hcount
    refine ⟨_, rfl, ?_⟩
    rw [times_succ]
    exact chain_of_failure _ h
  | still h hi => exact absurd hi (hconsumes hc hs h)
  | @moved _ _ _ _ u w h _ _ ih =>
    cases count with
    | zero => exact absurd hcount (Nat.not_lt_zero _)
    | succ count =>
      have hc' := hp.reached hc hs h
      obtain ⟨t, ht, htimes⟩ := ih hc' (hp.kept hc hs h) (Nat.lt_of_succ_lt_succ hcount)
      have hall := times_of_success h htimes
      rw [Outcome.map, Outcome.withPrior_failure] at hall
      refine ⟨_, ?_, hall⟩
      rw [ht]
      cases u.furthest <;> rfl

end
end Repeats

/-- Counts the runs of the parser beside its state. -/
def counted (p : Parser (StateT σ Option) α) : Parser (StateT (Nat × σ) Option) α := fun c t =>
  (p c t.2).map fun r => (r.1, t.1 + 1, r.2)

theorem counted_eq_some_iff {o : Outcome α} {t t' : Nat × σ} :
    p.counted c t = some (o, t') ↔ p c t.2 = some (o, t'.2) ∧ t'.1 = t.1 + 1 := by
  constructor
  · intro h
    obtain ⟨r, hr, ht⟩ := Option.map_eq_some_iff.mp h
    cases ht
    exact ⟨hr, rfl⟩
  · rintro ⟨h, hcount⟩
    refine Option.map_eq_some_iff.mpr ⟨_, h, ?_⟩
    rw [← hcount]

theorem GoesOn.counted (hp : p.GoesOn text I) : p.counted.GoesOn text fun t => I t.2 where
  kept hc hs h := hp.kept hc hs (counted_eq_some_iff.mp h).1
  reached hc hs h := hp.reached hc hs (counted_eq_some_iff.mp h).1
  onward hc hs h := hp.onward hc hs (counted_eq_some_iff.mp h).1

theorem Consumes.counted (hp : p.Consumes text I) : p.counted.Consumes text fun t => I t.2 :=
  fun _ _ _ _ hc hs h => hp hc hs (counted_eq_some_iff.mp h).1

/-- A repetition runs the parser once for each value, and once more. -/
theorem Repeats.counted (h : Repeats p c s w s') (runs : Nat) :
    Repeats p.counted c (runs, s) w (runs + w.value.length + 1, s') := by
  induction h generalizing runs with
  | failed h => exact .failed (counted_eq_some_iff.mpr ⟨h, rfl⟩)
  | still h hi => exact .still (counted_eq_some_iff.mpr ⟨h, rfl⟩) hi
  | @moved _ _ _ _ _ w h hi _ ih =>
    have hmore := ih (runs + 1)
    rw [show runs + 1 + w.value.length + 1 = runs + (w.value.length + 1) + 1 by omega] at hmore
    exact .moved (counted_eq_some_iff.mpr ⟨h, rfl⟩) hi hmore

theorem atLeast_of_times_failure {t : Trail} (h : p.times count c s = some (.failure t, s')) :
    p.atLeast count c s = some (.failure t, s') := by
  rw [atLeast_eq]
  exact chain_of_failure _ h

/-- A parser that always takes something can be repeated as often as the open loop repeats it, and no more;
one repetition too many is the one that ended that loop. -/
theorem repetitions_agree (hp : p.GoesOn text I) (hconsumes : p.Consumes text I)
    (hc : c.Reached text) (hs : I s) :
    ((∀ d t, d.Reached text → I t → ∃ o t', p d t = some (o, t')) →
      ∃ o s', p.many c s = some (o, s')) ∧
    (∀ o s', p.many c s = some (o, s') → ∃ vs rest a, o = .success ⟨vs, rest, a⟩ ∧
      vs.length ≤ Text.byteLength c.rest ∧
      ∀ count,
        (count ≤ vs.length →
          (∃ d b t, p.times count c s = some (.success ⟨vs.take count, d, b⟩, t)) ∧
            p.atLeast count c s = some (o, s')) ∧
        (vs.length < count → ∃ t, a = some t ∧
          p.times count c s = some (.failure t, s') ∧
          p.atLeast count c s = some (.failure t, s') ∧
          p.counted.times count c (0, s) = some (.failure t, vs.length + 1, s') ∧
          p.counted.atLeast count c (0, s) = some (.failure t, vs.length + 1, s'))) ∧
    ∀ g : Grammar, (g.IsLibrary → g.unbounded.GoesOn text Store.IsLibrary) ∧
      ∀ count, (g.atLeast count).unbounded = (g.unbounded.atLeast count).map Value.list := by
  refine ⟨fun hends => ?_, fun o s' h => ?_,
    fun g => ⟨fun hg => Grammar.goesOn_of_library hg text, g.unbounded_atLeast⟩⟩
  · obtain ⟨w, s', hw⟩ := hp.exists_repeats hends hc hs
    exact ⟨_, s', hp.many_of_repeats hc hs hw⟩
  · obtain ⟨w, rfl, hw⟩ := repeats_of_many h
    have hrest := hp.kept_of_repeats hc hs hw
    have hunread := hc.index_le_add hrest.2.1 hrest.2.2
    have hlength := hw.length_le hp hc hs
    refine ⟨w.value, w.rest, w.furthest, rfl, by omega, fun count => ⟨fun hle => ?_, fun hlt => ?_⟩⟩
    · exact ⟨hw.times_of_le hle, hw.atLeast_of_le hp hc hs hle⟩
    · obtain ⟨t, ht, htimes⟩ := hw.times_of_lt hp hconsumes hc hs hlt
      -- Counting the runs changes nothing else, so the counted parser fails as the plain one does.
      have hruns : Repeats p.counted c (0, s) w (w.value.length + 1, s') := by
        simpa using hw.counted 0
      obtain ⟨t', ht', hcounted⟩ := hruns.times_of_lt hp.counted hconsumes.counted hc hs hlt
      obtain rfl : t' = t := Option.some.inj (ht'.symm.trans ht)
      exact ⟨t', ht, htimes, atLeast_of_times_failure htimes, hcounted,
        atLeast_of_times_failure hcounted⟩

/-- Two letters are there, so the third of four is the one too many. -/
theorem repetitions_agree_letters :
    letterA.GoesOn ['a', 'a', 'b'] Store.IsLibrary ∧
      letterA.Consumes ['a', 'a', 'b'] Store.IsLibrary ∧
      (Cursor.start ['a', 'a', 'b']).Reached ['a', 'a', 'b'] ∧ Store.IsLibrary {} ∧
      (∀ d t, d.Reached ['a', 'a', 'b'] → Store.IsLibrary t → ∃ o t', letterA d t = some (o, t')) ∧
      (∃ o t, letterA.many (.start ['a', 'a', 'b']) {} = some (o, t)) ∧
      letterA.many (.start ['a', 'a', 'b']) {} = some (.success ⟨[.text "a", .text "a"],
        .after ['a', 'a'] ['b'], some (.failure ⟨2, 1, 3⟩ "'a'")⟩, {}) ∧
      letterA.atLeast 2 (.start ['a', 'a', 'b']) {} = letterA.many (.start ['a', 'a', 'b']) {} ∧
      letterA.counted.times 4 (.start ['a', 'a', 'b']) (0, {}) =
        some (.failure (.failure ⟨2, 1, 3⟩ "'a'"), 3, {}) ∧
      (Grammar.leaf (.literal "a")).unbounded.GoesOn ['a', 'a', 'b'] Store.IsLibrary := by
  have hp : letterA.GoesOn ['a', 'a', 'b'] Store.IsLibrary :=
    Grammar.goesOn_within (g := .leaf (.literal "a")) trivial _ 1
  have hconsumes : letterA.Consumes ['a', 'a', 'b'] Store.IsLibrary := by
    apply Grammar.consumes_within
    exact Grammar.consumes_leaf (l := .literal "a") trivial
      (Leaf.not_matchesEmpty_literal (by decide)) _ _
  have hends : ∀ d t, d.Reached ['a', 'a', 'b'] → Store.IsLibrary t →
      ∃ o t', letterA d t = some (o, t') := fun d t _ _ => ⟨_, _, rfl⟩
  have hmany : letterA.many (.start ['a', 'a', 'b']) {} = some (.success ⟨[.text "a", .text "a"],
      .after ['a', 'a'] ['b'], some (.failure ⟨2, 1, 3⟩ "'a'")⟩, {}) :=
    manyFrom_of_moved rfl (by decide) (by decide)
      (manyFrom_of_moved rfl (by decide) (by decide) (manyFrom_of_failed rfl))
  obtain ⟨hstops, hagree, hgrammars⟩ := repetitions_agree hp hconsumes .start Store.everywhere_empty
  obtain ⟨_, _, _, ⟨rfl⟩, -, hcounts⟩ := hagree _ _ hmany
  obtain ⟨_, ⟨rfl⟩, -, -, hcounted, -⟩ := (hcounts 4).2 (by decide)
  exact ⟨hp, hconsumes, .start, Store.everywhere_empty, hends, hstops hends, hmany,
    ((hcounts 2).1 (by decide)).2.trans hmany.symm, hcounted,
    (hgrammars (.leaf (.literal "a"))).1 trivial⟩

end Parser
end FurthestFailure
