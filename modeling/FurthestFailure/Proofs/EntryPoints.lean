import FurthestFailure.Diagnostic
import FurthestFailure.Proofs.Chaining

/-! # The ways to parse a text agree

Settings are applied to an outcome once it is there, and a diagnostic is made of the outcome that they
leave, so all entry points tell of one run. To require the end of the text by a setting is to put the
end behind the parser in a sequence: in both the own trail of the parser comes first, and the end is
missing where the parser stopped.
-/
namespace FurthestFailure
set_option autoImplicit false

namespace Outcome
variable {α : Type}

/-- The outcome with the trail of a success left out. -/
def untrailed : Outcome α → Outcome α
  | success s => success ⟨s.value, s.rest, none⟩
  | failure t => failure t

theorem requireEnd_of_end {s : Success α} (h : s.rest.rest = []) :
    (success s).requireEnd = success s := by
  rw [requireEnd, Cursor.isAtEnd, h]
  rfl

theorem requireEnd_of_more {s : Success α} (h : s.rest.rest ≠ []) :
    (success s).requireEnd = (s.rest.fail Leaf.endLabel).withPrior s.furthest := by
  rw [requireEnd, Cursor.isAtEnd, if_neg (mt List.isEmpty_iff.mp h)]

theorem under_untrailed (o : Outcome α) (settings : Settings) :
    o.under { settings with reportOnSuccess := false } =
      (o.under { settings with reportOnSuccess := true }).untrailed := by
  simp only [under, if_true, Bool.false_eq_true, if_false]
  rfl

theorem under_default (o : Outcome α) : o.under {} = o.requireEnd.untrailed := by
  rw [under, if_pos rfl]
  cases o.requireEnd <;> rfl

/-- Settings leave the trail of an outcome, or add that the end of the text was expected. -/
theorem trail_of_under {o : Outcome α} {settings : Settings} {t : Trail}
    (h : (o.under settings).trail? = some t) :
    o.trail? = some t ∨ ∃ s, o = success s ∧
      Trail.merge? s.furthest (some (.failure s.rest.position Leaf.endLabel)) = some t := by
  have hend : (if settings.requireEnd then o.requireEnd else o).trail? = some t := by
    rw [under] at h
    split at h
    · exact h
    · generalize (if settings.requireEnd then o.requireEnd else o) = o' at h
      cases o' with
      | success s => cases h
      | failure t' => exact h
  split at hend
  · cases o with
    | failure t' => exact .inl hend
    | success s =>
      by_cases hrest : s.rest.rest = []
      · rw [requireEnd_of_end hrest] at hend
        exact .inl hend
      · rw [requireEnd_of_more hrest, trail?_withPrior] at hend
        exact .inr ⟨s, rfl, hend⟩
  · exact .inl hend

theorem requireEnd_untrailed_eq_success {o : Outcome α} {v : α} {rest : Cursor} {a : Option Trail}
    (h : o.requireEnd.untrailed = success ⟨v, rest, a⟩) :
    ∃ b, o = success ⟨v, rest, b⟩ ∧ rest.rest = [] := by
  rcases o with ⟨v', rest', b⟩ | t
  · by_cases hend : rest'.rest = []
    · rw [requireEnd_of_end hend] at h
      cases h
      exact ⟨b, rfl, hend⟩
    · rw [requireEnd_of_more hend] at h
      cases h
  · cases h

end Outcome

namespace Parser
variable {σ α : Type} {p : Parser (StateT σ Option) α} {settings : Settings} {text : List Char} {s s' : σ}

theorem parseWith_eq_some_iff {o : Outcome α} : p.parseWith settings text s = some (o, s') ↔
    ∃ o', p.parse text s = some (o', s') ∧ o'.under settings = o :=
  return_eq_some_iff

theorem tryParse_ok_iff {v : α} : p.tryParse settings text s = some (.ok v, s') ↔
    ∃ rest a, p.parseWith settings text s = some (.success ⟨v, rest, a⟩, s') := by
  rw [tryParse, return_eq_some_iff]
  constructor
  · rintro ⟨⟨v, rest, a⟩ | t, ho, hv⟩
    · cases hv
      exact ⟨rest, a, ho⟩
    · cases hv
  · rintro ⟨rest, a, ho⟩
    exact ⟨_, ho, rfl⟩

theorem tryParse_error_iff {e : Diagnostic} : p.tryParse settings text s = some (.error e, s') ↔
    ∃ t, p.parseWith settings text s = some (.failure t, s') ∧
      e = .ofTrail settings.sourceName text t := by
  rw [tryParse, return_eq_some_iff]
  constructor
  · rintro ⟨u | t, ho, he⟩
    · cases he
    · cases he
      exact ⟨t, ho, rfl⟩
  · rintro ⟨t, ho, rfl⟩
    exact ⟨_, ho, rfl⟩

theorem parseWith_untrailed : p.parseWith { settings with reportOnSuccess := false } text =
    Outcome.untrailed <$> p.parseWith { settings with reportOnSuccess := true } text := by
  rw [parseWith, parseWith, map_bind]
  apply bind_congr
  intro o
  rw [map_pure, Outcome.under_untrailed]

theorem tryParse_named {name : String} : p.tryParse { settings with sourceName := name } text =
    Except.mapError (fun e => { e with sourceName := name }) <$> p.tryParse settings text := by
  rw [tryParse, tryParse, map_bind]
  apply bind_congr
  intro o
  rw [map_pure]
  cases o <;> rfl

theorem tryParse_default_ok_iff {v : α} : p.tryParse {} text s = some (.ok v, s') ↔
    ∃ rest a, p.parse text s = some (.success ⟨v, rest, a⟩, s') ∧ rest.rest = [] := by
  rw [tryParse_ok_iff]
  constructor
  · rintro ⟨rest, a, h⟩
    obtain ⟨o, ho, hunder⟩ := parseWith_eq_some_iff.mp h
    rw [Outcome.under_default] at hunder
    obtain ⟨b, rfl, hend⟩ := Outcome.requireEnd_untrailed_eq_success hunder
    exact ⟨rest, b, ho, hend⟩
  · rintro ⟨rest, a, h, hend⟩
    refine ⟨rest, none, parseWith_eq_some_iff.mpr ⟨_, h, ?_⟩⟩
    rw [Outcome.under_default, Outcome.requireEnd_of_end hend]
    rfl

end Parser

/-- What is reported of a success that stopped at `stop` before the end, by its own trail. -/
inductive Parser.StopsShort (stop : Position) : Option Trail → FailureReport → Prop
  | missing : StopsShort stop none ⟨stop, ["end of input"]⟩
  | shallower {t : Trail} (h : t.position.index < stop.index) :
    StopsShort stop (some t) ⟨stop, ["end of input"]⟩
  | level {t : Trail} {labels : List String} (h : t.position.index = stop.index)
    (hlabels : ∀ label, label ∈ labels ↔ label = "end of input" ∨ label ∈ t.expected)
    (hascending : labels.Pairwise (· < ·)) : StopsShort stop (some t) ⟨t.position, labels⟩
  | deeper {t : Trail} (h : stop.index < t.position.index) :
    StopsShort stop (some t) ⟨t.position, t.expected.toList⟩

theorem Parser.stopsShort {α : Type} (u : Success α) : ∃ t,
    (u.rest.fail Leaf.endLabel : Outcome α).withPrior u.furthest = .failure t ∧
      StopsShort u.rest.position u.furthest t.report := by
  obtain ⟨v, rest, _ | t⟩ := u
  · exact ⟨_, rfl, .missing⟩
  · refine ⟨t.merge (.failure rest.position Leaf.endLabel), rfl, ?_⟩
    rcases Nat.lt_trichotomy t.position.index rest.position.index with hlt | heq | hgt
    · rw [Trail.merge_of_lt (b := .failure rest.position Leaf.endLabel) hlt]
      exact .shallower hlt
    · rw [Trail.merge_of_eq (b := .failure rest.position Leaf.endLabel) heq]
      refine .level heq (fun label => ?_) (Labels.ascending _)
      simp [Trail.failure, Leaf.endLabel, or_comm]
    · rw [Trail.merge_of_gt (b := .failure rest.position Leaf.endLabel) hgt]
      exact .deeper hgt

/-- To read the end behind a parser is to require it of its outcome. -/
theorem Parser.chain_end {m : Type → Type} [Monad m] [LawfulMonad m] {α : Type} (p : Parser m α) :
    (p.chain fun v => chain (fun c => pure (Leaf.endOfInput.run c)) fun _ => succeed v) =
      fun c => do return (← p c).requireEnd := by
  funext c
  apply bind_congr
  intro o
  cases o with
  | failure t => rfl
  | success s =>
    by_cases hend : s.rest.rest = []
    · have hread : Leaf.endOfInput.run s.rest = s.rest.succeed .null := by
        simp [Leaf.run, Leaf.endAt, Cursor.isAtEnd, hend, Cursor.succeed, Outcome.map]
      rw [Outcome.requireEnd_of_end hend]
      simp [chain, hread, succeed, Cursor.succeed, Outcome.withPrior]
    · have hread : Leaf.endOfInput.run s.rest = s.rest.fail Leaf.endLabel := by
        simp [Leaf.run, Leaf.endAt, Cursor.isAtEnd, hend, Cursor.fail, Outcome.map]
      rw [Outcome.requireEnd_of_more hend]
      simp [chain, hread, Cursor.fail]

namespace Grammar

theorem unbounded_endOfInput :
    (leaf .endOfInput).unbounded = fun c => pure (Leaf.endOfInput.run c) := by
  funext c store
  exact unbounded_leaf _ c store

theorem unbounded_thenEnd (g : Grammar) :
    g.thenEnd.unbounded = fun c => do return (← g.unbounded c).requireEnd := by
  rw [thenEnd, unbounded_skip]
  simp only [unbounded_continued, unbounded_succeed, unbounded_endOfInput, Parser.chain_end]

end Grammar

namespace Parser

/-- The ways to parse a text, one told by the other. A diagnostic of a text that was not read to its end
is about the deeper of the place where the parser stopped and its trail. -/
theorem entry_points_agree :
    (∀ (g : Grammar) (settings : Settings) (text : List Char),
      g.unbounded.parseWith { settings with requireEnd := true, reportOnSuccess := true } text =
        g.thenEnd.unbounded.parse text) ∧
    ∀ {σ α : Type} (p : Parser (StateT σ Option) α) (settings : Settings) (text : List Char),
      p.parseWith { settings with requireEnd := false, reportOnSuccess := true } text = p.parse text ∧
      p.parseWith { settings with reportOnSuccess := false } text =
        Outcome.untrailed <$> p.parseWith { settings with reportOnSuccess := true } text ∧
      (∀ name, p.parseWith { settings with sourceName := name } text = p.parseWith settings text ∧
        p.tryParse { settings with sourceName := name } text =
          Except.mapError (fun e => { e with sourceName := name }) <$> p.tryParse settings text) ∧
      ∀ s s',
        (∀ v, p.tryParse settings text s = some (.ok v, s') ↔
          ∃ rest a, p.parseWith settings text s = some (.success ⟨v, rest, a⟩, s')) ∧
        (∀ e, p.tryParse settings text s = some (.error e, s') ↔
          ∃ t, p.parseWith settings text s = some (.failure t, s') ∧
            e = .ofTrail settings.sourceName text t ∧ e.report = t.report) ∧
        (∀ v, p.tryParse {} text s = some (.ok v, s') ↔
          ∃ rest a, p.parse text s = some (.success ⟨v, rest, a⟩, s') ∧ rest.rest = []) ∧
        ∀ u, p.parse text s = some (.success u, s') → u.rest.rest ≠ [] →
          ∃ e, p.tryParse {} text s = some (.error e, s') ∧
            StopsShort u.rest.position u.furthest e.report := by
  refine ⟨fun g settings text => ?_, fun p settings text => ⟨?_, ?_, fun name => ⟨rfl, ?_⟩, fun s s' => ?_⟩⟩
  · rw [parse, Grammar.unbounded_thenEnd]
    rfl
  · exact bind_pure _
  · exact parseWith_untrailed
  · exact tryParse_named
  · refine ⟨fun v => tryParse_ok_iff, fun e => ?_, fun v => tryParse_default_ok_iff, fun u h hmore => ?_⟩
    · rw [tryParse_error_iff]
      exact exists_congr fun t => and_congr_right fun _ => iff_self_and.mpr fun he => he ▸ rfl
    · obtain ⟨t, ht, hshort⟩ := stopsShort u
      refine ⟨_, tryParse_error_iff.mpr ⟨t, parseWith_eq_some_iff.mpr ⟨_, h, ?_⟩, rfl⟩, hshort⟩
      rw [Outcome.under_default, Outcome.requireEnd_of_more hmore, ht]
      rfl

def letters : Parser Engine Value := (Grammar.many (.leaf (.literal "a"))).runWithin 3

/-- A letter `a` is read, and then there is another one. -/
theorem entry_points_agree_letters : ∃ u,
    letters.parse ['a', 'b'] {} = some (.success u, {}) ∧ u.rest.rest ≠ [] ∧
      ∃ e, letters.tryParse {} ['a', 'b'] {} = some (.error e, {}) ∧
        StopsShort u.rest.position u.furthest e.report ∧
        e.report = ⟨⟨1, 1, 2⟩, ["'a'", "end of input"]⟩ := by
  have hparse : letters.parse ['a', 'b'] {} = some (.success ⟨.list [.text "a"],
      ⟨['a', 'b'], ⟨1, 1, 2⟩, ['b']⟩, some (.failure ⟨1, 1, 2⟩ "'a'")⟩, {}) :=
    Option.bind_eq_some_iff.mpr ⟨_, Parser.manyFrom_of_moved rfl (by decide) (by decide)
      (Parser.manyFrom_of_failed rfl), rfl⟩
  have htry : letters.tryParse {} ['a', 'b'] {} = some (.error (.ofTrail "input" ['a', 'b']
      ⟨⟨1, 1, 2⟩, .ofList ["'a'", "end of input"]⟩), {}) :=
    Option.bind_eq_some_iff.mpr ⟨_, Option.bind_eq_some_iff.mpr ⟨_, hparse, rfl⟩, rfl⟩
  have hmore : ['b'] ≠ [] := List.cons_ne_nil _ _
  obtain ⟨e, he, hshort⟩ :=
    ((entry_points_agree.2 letters {} ['a', 'b']).2.2.2 {} {}).2.2.2 _ hparse hmore
  rw [htry] at he
  cases he
  exact ⟨_, hparse, hmore, _, htry, hshort, by decide⟩

end Parser

end FurthestFailure
