import FurthestFailure.Proofs.Choosing
import FurthestFailure.Proofs.Counting
import FurthestFailure.Proofs.Merging.Folding
import FurthestFailure.Proofs.Repeating

/-! # Ordered choice

A choice takes the first alternative that succeeds, behind the failures of all before it, and fails with the
failures of all. Where an alternative has the same outcome whenever it is tried, it need not be tried twice,
and if all fail it is enough to know which there are. So it is for grammars, whatever is built meanwhile.
-/
namespace FurthestFailure
set_option autoImplicit false

namespace Parser
variable {σ α : Type} {I : σ → Prop} {p : Parser (StateT σ Option) α}
variable {ps xs ys : List (Parser (StateT σ Option) α)} {ts : List (Option Trail)}
variable {c : Cursor} {s s' s₁ : σ} {o : Outcome α} {t : Trail}

/-- The outcome without the state that is left. -/
def outcomeFrom (p : Parser (StateT σ Option) α) (c : Cursor) (s : σ) : Option (Outcome α) :=
  (p c s).map Prod.fst

theorem outcomeFrom_eq_some_iff : p.outcomeFrom c s = some o ↔ ∃ s', p c s = some (o, s') := by
  simp [outcomeFrom]

/-- Between states of the kind the parser has the same outcome, and it leaves such a state. -/
def Determinate (I : σ → Prop) (p : Parser (StateT σ Option) α) : Prop :=
  ∀ ⦃c s t o s'⦄, I s → I t → p c s = some (o, s') → ∃ t', p c t = some (o, t') ∧ I t'

namespace Determinate
variable (hp : p.Determinate I)
include hp

theorem kept (hs : I s) (h : p c s = some (o, s')) : I s' := by
  obtain ⟨s'', h', hs'⟩ := hp hs hs h
  rw [h] at h'
  cases h'
  exact hs'

theorem outcomeFrom_eq (c : Cursor) (hs : I s) (hs' : I s') :
    p.outcomeFrom c s = p.outcomeFrom c s' := by
  apply Option.ext
  intro o
  simp only [outcomeFrom_eq_some_iff]
  constructor
  · rintro ⟨_, h⟩
    obtain ⟨t', h', -⟩ := hp hs hs' h
    exact ⟨t', h'⟩
  · rintro ⟨_, h⟩
    obtain ⟨t', h', -⟩ := hp hs' hs h
    exact ⟨t', h'⟩

end Determinate

theorem determinate_choiceFrom (hps : ∀ p ∈ ps, p.Determinate I) (trail : Option Trail) :
    (choiceFrom ps trail).Determinate I := by
  induction ps generalizing trail with
  | nil =>
    intro c s t o s' _ ht h
    cases trail with
    | none =>
      cases h
      exact ⟨t, rfl, ht⟩
    | some a =>
      cases h
      exact ⟨t, rfl, ht⟩
  | cons p ps ih =>
    intro c s t o s' hs ht h
    obtain ⟨⟨r, s₁⟩, hp, hmore⟩ := Option.bind_eq_some_iff.mp h
    obtain ⟨t₁, hp', ht₁⟩ := hps p (.head _) hs ht hp
    cases r with
    | success u =>
      cases hmore
      exact ⟨t₁, Option.bind_eq_some_iff.mpr ⟨_, hp', rfl⟩, ht₁⟩
    | failure a =>
      have hs₁ := (hps p (.head _)).kept hs hp
      obtain ⟨t₂, hmore', ht₂⟩ := ih (fun q hq => hps q (.tail _ hq)) _ hs₁ ht₁ hmore
      exact ⟨t₂, Option.bind_eq_some_iff.mpr ⟨_, hp', hmore'⟩, ht₂⟩

theorem choiceFrom_of_failure (h : p c s = some (.failure t, s₁)) (trail : Option Trail) :
    choiceFrom (p :: ps) trail c s = choiceFrom ps (Trail.merge? trail (some t)) c s₁ := by
  simp [choiceFrom, bind, StateT.bind, h]

/-- All alternatives fail one after the other, with these trails. -/
inductive FailInTurn (c : Cursor) :
    List (Parser (StateT σ Option) α) → σ → List (Option Trail) → σ → Prop
  | nil {s : σ} : FailInTurn c [] s [] s
  | cons {p : Parser (StateT σ Option) α} {ps : List (Parser (StateT σ Option) α)}
    {s s₁ s' : σ} {t : Trail} {ts : List (Option Trail)} (h : p c s = some (.failure t, s₁))
    (hmore : FailInTurn c ps s₁ ts s') : FailInTurn c (p :: ps) s (some t :: ts) s'

namespace FailInTurn

theorem choiceFrom_eq (h : FailInTurn c xs s ts s₁) (ys : List (Parser (StateT σ Option) α))
    (trail : Option Trail) :
    choiceFrom (xs ++ ys) trail c s = choiceFrom ys (Trail.merge? trail (Trail.mergeAll ts)) c s₁ := by
  induction h generalizing trail with
  | nil => rw [List.nil_append, Trail.mergeAll_nil, Trail.merge?_none]
  | @cons p ps s s₁ s' t ts hp _ ih =>
    rw [Trail.mergeAll_cons, ← Trail.merge?_assoc, ← ih]
    exact choiceFrom_of_failure hp trail

theorem mergeAll_ne_none (h : FailInTurn c ps s ts s') (hps : ps ≠ []) : Trail.mergeAll ts ≠ none := by
  cases h with
  | nil => exact absurd rfl hps
  | cons =>
    intro hnone
    exact Trail.mergeAll_eq_none_iff.mp hnone _ (.head _)

theorem choice_eq (h : FailInTurn c ps s ts s') (ht : Trail.mergeAll ts = some t) :
    choice ps c s = some (.failure t, s') := by
  have hall := h.choiceFrom_eq [] none
  rw [List.append_nil, Trail.none_merge?, ht] at hall
  exact hall

section
variable (hps : ∀ p ∈ ps, p.Determinate I)
include hps

theorem kept (hs : I s) (h : FailInTurn c ps s ts s') : I s' := by
  induction h with
  | nil => exact hs
  | cons h _ ih =>
    exact ih (fun q hq => hps q (.tail _ hq)) ((hps _ (.head _)).kept hs h)

/-- The trails are those of the alternatives, each run at the start. -/
theorem mem_iff (hs : I s) (hs₁ : I s₁) (h : FailInTurn c ps s₁ ts s') :
    some t ∈ ts ↔ ∃ p ∈ ps, p.outcomeFrom c s = some (.failure t) := by
  induction h with
  | nil => simp
  | @cons p ps s₁ s₂ s' t' ts h _ ih =>
    have hp := hps p (.head _)
    have hout : p.outcomeFrom c s = some (.failure t') :=
      (hp.outcomeFrom_eq c hs hs₁).trans (outcomeFrom_eq_some_iff.mpr ⟨_, h⟩)
    rw [List.exists_mem_cons_iff, ← ih (fun q hq => hps q (.tail _ hq)) (hp.kept hs₁ h), hout]
    simp [eq_comm]

theorem exists_trail (hs : I s) (hs₁ : I s₁) (h : FailInTurn c ps s ts s') (hp : p ∈ ps) :
    ∃ t, some t ∈ ts ∧ p.outcomeFrom c s₁ = some (.failure t) := by
  induction h with
  | nil => cases hp
  | @cons q ps s s₂ s' t ts hq _ ih =>
    have hdet := hps q (.head _)
    cases hp with
    | head =>
      refine ⟨t, .head _, ?_⟩
      rw [hdet.outcomeFrom_eq c hs₁ hs]
      exact outcomeFrom_eq_some_iff.mpr ⟨s₂, hq⟩
    | tail _ hp =>
      obtain ⟨t', ht', hrun⟩ := ih (fun q hq => hps q (.tail _ hq)) (hdet.kept hs hq) hp
      exact ⟨t', .tail _ ht', hrun⟩

theorem exists_of_fails (hs : I s) (hs₁ : I s₁)
    (hfails : ∀ p ∈ ps, ∃ t, p.outcomeFrom c s = some (.failure t)) :
    ∃ ts s', FailInTurn c ps s₁ ts s' := by
  induction ps generalizing s₁ with
  | nil => exact ⟨[], s₁, .nil⟩
  | cons p ps ih =>
    have hp := hps p (.head _)
    obtain ⟨t, ht⟩ := hfails p (.head _)
    rw [hp.outcomeFrom_eq c hs hs₁] at ht
    obtain ⟨s₂, h⟩ := outcomeFrom_eq_some_iff.mp ht
    obtain ⟨ts, s', hmore⟩ := ih (fun q hq => hps q (.tail _ hq)) (hp.kept hs₁ h)
      fun q hq => hfails q (.tail _ hq)
    exact ⟨some t :: ts, s', .cons h hmore⟩

end

/-- Some alternatives all fail, or what comes behind them is not tried. -/
theorem exists_or_behind (c : Cursor) (s : σ) (xs : List (Parser (StateT σ Option) α)) :
    (∃ ts s', FailInTurn c xs s ts s') ∨
      ∀ (ys zs : List (Parser (StateT σ Option) α)) (trail : Option Trail),
        choiceFrom (xs ++ ys) trail c s = choiceFrom (xs ++ zs) trail c s := by
  induction xs generalizing s with
  | nil => exact .inl ⟨[], s, .nil⟩
  | cons p xs ih =>
    cases hp : p c s with
    | none => exact .inr fun ys zs trail => by simp [choiceFrom, bind, StateT.bind, hp]
    | some r =>
      obtain ⟨u | t, s₁⟩ := r
      · exact .inr fun ys zs trail => by simp [choiceFrom, bind, StateT.bind, hp]
      · rcases ih s₁ with ⟨ts, s', hmore⟩ | hmore
        · exact .inl ⟨some t :: ts, s', .cons hp hmore⟩
        · refine .inr fun ys zs trail => ?_
          rw [List.cons_append, List.cons_append, choiceFrom_of_failure hp, choiceFrom_of_failure hp]
          exact hmore ys zs _

end FailInTurn

/-- The first alternative that succeeds is taken, behind the failures of all before it. -/
theorem choiceFrom_eq_success_iff {trail : Option Trail} {w : Success α} :
    choiceFrom ps trail c s = some (.success w, s') ↔
      ∃ xs p zs ts s₁ u, ps = xs ++ p :: zs ∧ FailInTurn c xs s ts s₁ ∧
        p c s₁ = some (.success u, s') ∧
        w = ⟨u.value, u.rest,
          Trail.merge? (Trail.merge? trail (Trail.mergeAll ts)) u.furthest⟩ := by
  constructor
  · intro h
    induction ps generalizing trail s with
    | nil => cases trail <;> cases h
    | cons p ps ih =>
      obtain ⟨⟨u | t, s₁⟩, hp, hmore⟩ := Option.bind_eq_some_iff.mp h
      · cases hmore
        exact ⟨[], p, ps, [], s, u, rfl, .nil, hp, by simp⟩
      · obtain ⟨xs, q, zs, ts, s₂, u, rfl, hfail, hq, rfl⟩ := ih hmore
        refine ⟨p :: xs, q, zs, some t :: ts, s₂, u, rfl, .cons hp hfail, hq, ?_⟩
        rw [Trail.mergeAll_cons, Trail.merge?_assoc trail]
  · rintro ⟨xs, p, zs, ts, s₁, u, rfl, hfail, hp, rfl⟩
    rw [hfail.choiceFrom_eq]
    exact Option.bind_eq_some_iff.mpr ⟨_, hp, rfl⟩

theorem failInTurn_of_failure {trail : Option Trail}
    (h : choiceFrom ps trail c s = some (.failure t, s')) : ∃ ts, FailInTurn c ps s ts s' := by
  induction ps generalizing trail s with
  | nil =>
    obtain rfl : s = s' := by
      cases trail <;> exact congrArg Prod.snd (Option.some.inj h)
    exact ⟨[], .nil⟩
  | cons p ps ih =>
    obtain ⟨⟨u | t, s₁⟩, hp, hmore⟩ := Option.bind_eq_some_iff.mp h
    · cases hmore
    · obtain ⟨ts, hfail⟩ := ih hmore
      exact ⟨some t :: ts, .cons hp hfail⟩

theorem choice_eq_success_iff {w : Success α} : choice ps c s = some (.success w, s') ↔
    ∃ xs p zs ts s₁ u, ps = xs ++ p :: zs ∧ FailInTurn c xs s ts s₁ ∧
      p c s₁ = some (.success u, s') ∧
      w = ⟨u.value, u.rest, Trail.merge? (Trail.mergeAll ts) u.furthest⟩ := by
  rw [choice, choiceFrom_eq_success_iff]
  simp only [Trail.none_merge?]

/-- A choice among some alternatives fails exactly if all fail, with all their failures. -/
theorem choice_eq_failure_iff (hps : ps ≠ []) : choice ps c s = some (.failure t, s') ↔
    ∃ ts, FailInTurn c ps s ts s' ∧ Trail.mergeAll ts = some t := by
  constructor
  · intro h
    obtain ⟨ts, hfail⟩ := failInTurn_of_failure h
    cases ht : Trail.mergeAll ts with
    | none => exact absurd ht (hfail.mergeAll_ne_none hps)
    | some t' =>
      rw [hfail.choice_eq ht] at h
      cases h
      exact ⟨ts, hfail, ht⟩
  · rintro ⟨ts, hfail, ht⟩
    exact hfail.choice_eq ht

/-- The second time an alternative is tried it fails as it did before, so it may be left out. -/
theorem outcomeFrom_choice_repeated (hxs : ∀ q ∈ xs, q.Determinate I)
    (hys : ∀ q ∈ ys, q.Determinate I) (hp : p ∈ xs) (hs : I s) :
    (choice (xs ++ p :: ys)).outcomeFrom c s = (choice (xs ++ ys)).outcomeFrom c s := by
  rcases FailInTurn.exists_or_behind c s xs with ⟨ts, s₁, hfail⟩ | hbehind
  · have hs₁ := hfail.kept hxs hs
    obtain ⟨t, ht, hrun⟩ := hfail.exists_trail hxs hs hs₁ hp
    obtain ⟨s₂, hagain⟩ := outcomeFrom_eq_some_iff.mp hrun
    have hs₂ := (hxs p hp).kept hs₁ hagain
    have hleft : choice (xs ++ p :: ys) c s =
        choiceFrom ys (Trail.merge? (Trail.mergeAll ts) (some t)) c s₂ := by
      rw [choice, hfail.choiceFrom_eq, Trail.none_merge?]
      exact choiceFrom_of_failure hagain _
    have hright : choice (xs ++ ys) c s = choiceFrom ys (Trail.mergeAll ts) c s₁ := by
      rw [choice, hfail.choiceFrom_eq, Trail.none_merge?]
    rw [outcomeFrom, outcomeFrom, hleft, hright, Trail.mergeAll_absorb ht]
    exact (determinate_choiceFrom hys _).outcomeFrom_eq c hs₂ hs₁
  · exact congrArg (Option.map Prod.fst) (hbehind _ _ none)

/-- If all alternatives fail, their order and how often they are there does not matter. -/
theorem outcomeFrom_choice_same {qs : List (Parser (StateT σ Option) α)} (hne : ps ≠ [])
    (hsame : ∀ p, p ∈ ps ↔ p ∈ qs) (hps : ∀ p ∈ ps, p.Determinate I) (hs : I s)
    (hfails : ∀ p ∈ ps, ∃ t, p.outcomeFrom c s = some (.failure t))
    (hplaced : ∀ p ∈ ps, ∀ q ∈ ps, ∀ t t', p.outcomeFrom c s = some (.failure t) →
      q.outcomeFrom c s = some (.failure t') → t.position.index = t'.position.index →
      t.position = t'.position) :
    ∃ t, (choice ps).outcomeFrom c s = some (.failure t) ∧
      (choice qs).outcomeFrom c s = some (.failure t) := by
  have hqs : ∀ q ∈ qs, q.Determinate I := fun q hq => hps q ((hsame q).mpr hq)
  obtain ⟨ts, s₁, hfail⟩ := FailInTurn.exists_of_fails hps hs hs hfails
  obtain ⟨ts', s₂, hfail'⟩ :=
    FailInTurn.exists_of_fails hqs hs hs fun q hq => hfails q ((hsame q).mpr hq)
  have hmerged : Trail.mergeAll ts = Trail.mergeAll ts' := by
    apply Trail.mergeAll_congr
    · intro u
      simp only [hfail.mem_iff hps hs hs, hfail'.mem_iff hqs hs hs, hsame]
    · intro u v hu hv
      obtain ⟨p, hp, hu⟩ := (hfail.mem_iff hps hs hs).mp hu
      obtain ⟨q, hq, hv⟩ := (hfail.mem_iff hps hs hs).mp hv
      exact hplaced p hp q hq u v hu hv
  obtain ⟨t, ht⟩ := Option.ne_none_iff_exists'.mp (hfail.mergeAll_ne_none hne)
  refine ⟨t, outcomeFrom_eq_some_iff.mpr ⟨s₁, hfail.choice_eq ht⟩, ?_⟩
  exact outcomeFrom_eq_some_iff.mpr ⟨s₂, hfail'.choice_eq (hmerged ▸ ht)⟩

end Parser

namespace Grammar
variable {g : Grammar} {text : List Char} {s : Store}

theorem determinate_leaf (l : Leaf) (I : Store → Prop) (depth : Nat) :
    ((leaf l).runWithin (depth + 1)).Determinate I := by
  intro c s t o s' _ ht h
  cases h
  exact ⟨t, rfl, ht⟩

theorem determinate_of_scoped (hs : s.Scoped) (hscopes : s.Scopes g) :
    g.unbounded.Determinate s.Keeps := by
  intro c t t' o t₁ ht ht' h
  exact exists_run_of_ends hs hscopes ht' (ends_of_keeps hs hscopes ht h)

/-- In a text an index has only one place, so failures that are equally deep are at the same one. -/
theorem placed_of_library {g' : Grammar} (hg : g.IsLibrary) (hg' : g'.IsLibrary) (hs : s.IsLibrary)
    {c : Cursor} (hc : c.Reached text) {t t' : Trail}
    (h : g.unbounded.outcomeFrom c s = some (.failure t))
    (h' : g'.unbounded.outcomeFrom c s = some (.failure t'))
    (hindex : t.position.index = t'.position.index) : t.position = t'.position := by
  obtain ⟨_, hrun⟩ := Parser.outcomeFrom_eq_some_iff.mp h
  obtain ⟨_, hrun'⟩ := Parser.outcomeFrom_eq_some_iff.mp h'
  obtain ⟨_, hrun⟩ := unbounded_eq_some_iff.mp hrun
  obtain ⟨_, hrun'⟩ := unbounded_eq_some_iff.mp hrun'
  have hscanned := scanned_of_failure hg hs hc hrun
  exact hscanned.eq_of_index_eq (scanned_of_failure hg' hs hc hrun') hindex

end Grammar

namespace Parser

/-- Groups of alternatives do not matter, nor does an alternative that is tried again. If all fail it only
matters which there are. The first that succeeds is taken with the failures before it. What is asked of
alternatives for this is met by grammars. -/
theorem choosing_laws (m : Type → Type) [Monad m] [LawfulMonad m] :
    (∀ {α : Type} (xs ys zs : List (Parser m α)), ys ≠ [] →
      choice (xs ++ [choice ys] ++ zs) = choice (xs ++ ys ++ zs)) ∧
    (∀ {α : Type} (g : Grouping (Parser m α)), g.Full → g.chosen = choice g.flatten) ∧
    (∀ {α : Type} (p : Parser m α),
      choice [p] = p ∧ p.optional = choice [p.map some, succeed none]) ∧
    (∀ g : Grammar, (Grammar.optional g).unbounded =
      (Grammar.choice [g.map .present, .leaf (.succeed .null)]).unbounded) ∧
    (∀ {σ α : Type} {I : σ → Prop} (p : Parser (StateT σ Option) α)
      (xs ys : List (Parser (StateT σ Option) α)) (c : Cursor) (s : σ),
      (∀ q ∈ xs ++ ys, q.Determinate I) → p ∈ xs → I s →
      (choice (xs ++ p :: ys)).outcomeFrom c s = (choice (xs ++ ys)).outcomeFrom c s) ∧
    (∀ {σ α : Type} {I : σ → Prop} (ps qs : List (Parser (StateT σ Option) α)) (c : Cursor) (s : σ),
      ps ≠ [] → (∀ p, p ∈ ps ↔ p ∈ qs) → (∀ p ∈ ps, p.Determinate I) → I s →
      (∀ p ∈ ps, ∃ t, p.outcomeFrom c s = some (.failure t)) →
      (∀ p ∈ ps, ∀ q ∈ ps, ∀ t t', p.outcomeFrom c s = some (.failure t) →
        q.outcomeFrom c s = some (.failure t') → t.position.index = t'.position.index →
        t.position = t'.position) →
      ∃ t, (choice ps).outcomeFrom c s = some (.failure t) ∧
        (choice qs).outcomeFrom c s = some (.failure t)) ∧
    (∀ {σ α : Type} (ps : List (Parser (StateT σ Option) α)) (c : Cursor) (s s' : σ),
      (∀ w, choice ps c s = some (.success w, s') ↔
        ∃ xs p zs ts s₁ u, ps = xs ++ p :: zs ∧ FailInTurn c xs s ts s₁ ∧
          p c s₁ = some (.success u, s') ∧
          w = ⟨u.value, u.rest, Trail.merge? (Trail.mergeAll ts) u.furthest⟩) ∧
      (ps ≠ [] → ∀ t, choice ps c s = some (.failure t, s') ↔
        ∃ ts, FailInTurn c ps s ts s' ∧ Trail.mergeAll ts = some t)) ∧
    ∀ (s : Store) (text : List Char) (c : Cursor) (g : Grammar), s.Scoped → s.Scopes g →
      g.unbounded.Determinate s.Keeps ∧
      ∀ g' : Grammar, s.IsLibrary → g.IsLibrary → g'.IsLibrary → c.Reached text →
        ∀ t t', g.unbounded.outcomeFrom c s = some (.failure t) →
          g'.unbounded.outcomeFrom c s = some (.failure t') →
          t.position.index = t'.position.index → t.position = t'.position := by
  refine ⟨fun xs ys zs hys => choice_nested xs zs hys, fun g hg => Grouping.chosen_eq hg,
    fun p => ⟨choice_single p, p.optional_eq_choice⟩, Grammar.unbounded_optional, ?_, ?_, ?_, ?_⟩
  · intro σ α I p xs ys c s hall hp hs
    exact outcomeFrom_choice_repeated (fun q hq => hall q (List.mem_append_left _ hq))
      (fun q hq => hall q (List.mem_append_right _ hq)) hp hs
  · intro σ α I ps qs c s hne hsame hps hs hfails hplaced
    exact outcomeFrom_choice_same hne hsame hps hs hfails hplaced
  · intro σ α ps c s s'
    exact ⟨fun w => choice_eq_success_iff, fun hps t => choice_eq_failure_iff hps⟩
  · intro s text c g hs hscopes
    refine ⟨Grammar.determinate_of_scoped hs hscopes, ?_⟩
    intro g' hlib hg hg' hc t t' h h' hindex
    exact Grammar.placed_of_library hg hg' hlib hc h h' hindex

def letterB : Parser Engine Value := (Grammar.leaf (.literal "b")).runWithin 1

/-- No letter is found in the first text, and in the second one the first letter is missing. -/
theorem choosing_laws_letters :
    LawfulMonad Option ∧
      choice ([literal "a"] ++ [choice [literal "b", literal "c"]] ++ [literal "d"]) (.start ['x']) =
        choice ([literal "a"] ++ [literal "b", literal "c"] ++ [literal "d"]) (.start ['x']) ∧
      (Grouping.group [.group [.one (literal "a"), .one (literal "b")], .one (literal "c")]).chosen
        (.start ['x']) = choice [literal "a", literal "b", literal "c"] (.start ['x']) ∧
      (literal "a").optional (.start ['x']) =
        choice [(literal "a").map some, succeed none] (.start ['x']) ∧
      (choice ([letterA, letterB] ++ letterA :: [])).outcomeFrom (.start ['x']) ({} : Store) =
        (choice ([letterA, letterB] ++ [])).outcomeFrom (.start ['x']) ({} : Store) ∧
      (∃ t, (choice [letterA, letterB]).outcomeFrom (.start ['x']) ({} : Store) = some (.failure t) ∧
        (choice [letterB, letterA, letterB]).outcomeFrom (.start ['x']) ({} : Store) = some (.failure t)) ∧
      choice [letterA, letterB, letterA] (.start ['b']) ({} : Store) =
        some (.success ⟨.text "b", .after ['b'] [], some (.failure .start "'a'")⟩, {}) ∧
      choice [letterA, letterB] (.start ['x']) ({} : Store) =
        some (.failure ⟨.start, .ofList ["'a'", "'b'"]⟩, {}) ∧
      Grammar.syllable.unbounded.Determinate Grammar.syllableStore.Keeps ∧
      ∃ t t' : Trail,
        Grammar.syllable.unbounded.outcomeFrom (.start ['x']) Grammar.syllableStore =
          some (.failure t) ∧
        (Grammar.leaf (.literal "b")).unbounded.outcomeFrom (.start ['x']) Grammar.syllableStore =
          some (.failure t') ∧ t.position = t'.position := by
  obtain ⟨hnested, hgrouped, hoptional, -, hrepeated, hsame, htaken, hgrammars⟩ :=
    choosing_laws Option
  have hA : letterA.Determinate fun _ => True := Grammar.determinate_leaf _ _ 0
  have hB : letterB.Determinate fun _ => True := Grammar.determinate_leaf _ _ 0
  have hall : ∀ p ∈ [letterA, letterB], p.Determinate fun _ => True := by simp [hA, hB]
  have hfailA : letterA (.start ['x']) {} = some (.failure (.failure .start "'a'"), {}) := rfl
  have hfailB : letterB (.start ['x']) {} = some (.failure (.failure .start "'b'"), {}) := rfl
  have hfails : ∀ p ∈ [letterA, letterB], ∃ t,
      p.outcomeFrom (.start ['x']) ({} : Store) = some (.failure t) ∧ t.position = .start := by
    simp [outcomeFrom, hfailA, hfailB, Trail.failure]
  have hfull : (Grouping.group [.group [.one (literal "a"), .one (literal "b")],
      .one (literal "c")]).Full := by
    simp [Grouping.Full, Grouping.AllFull]
  have hmissing : letterA (.start ['b']) {} = some (.failure (.failure .start "'a'"), {}) := rfl
  have hread : letterB (.start ['b']) {} = some (.success ⟨.text "b", .after ['b'] [], none⟩, {}) :=
    rfl
  obtain ⟨hdeterminate, hplaced⟩ := hgrammars Grammar.syllableStore ['x'] (.start ['x'])
    Grammar.syllable Grammar.scoped_syllableStore Grammar.scopes_syllable
  have hsyllable : Grammar.syllable.unbounded.outcomeFrom (.start ['x']) Grammar.syllableStore =
      some (.failure (.failure .start "'ab'")) :=
    outcomeFrom_eq_some_iff.mpr ⟨_, Grammar.unbounded_eq_some_iff.mpr ⟨5, rfl⟩⟩
  have hletter : (Grammar.leaf (.literal "b")).unbounded.outcomeFrom (.start ['x'])
      Grammar.syllableStore = some (.failure (.failure .start "'b'")) :=
    outcomeFrom_eq_some_iff.mpr ⟨_, Grammar.unbounded_eq_some_iff.mpr ⟨1, rfl⟩⟩
  refine ⟨inferInstance, congrFun (hnested _ _ _ (by simp)) _, congrFun (hgrouped _ hfull) _,
    congrFun (hoptional _).2 _, ?_, ?_, ?_, ?_, hdeterminate, _, _, hsyllable, hletter, ?_⟩
  · exact hrepeated letterA _ _ _ _ (by simpa using hall) (.head _) trivial
  · refine hsame _ _ _ _ (by simp) (by simp) hall trivial (fun p hp => ?_) ?_
    · obtain ⟨t, ht, -⟩ := hfails p hp
      exact ⟨t, ht⟩
    · intro p hp q hq t t' ht ht' _
      obtain ⟨_, hu, hplace⟩ := hfails p hp
      obtain ⟨_, hu', hplace'⟩ := hfails q hq
      cases ht.symm.trans hu
      cases ht'.symm.trans hu'
      rw [hplace, hplace']
  · exact ((htaken _ _ _ _).1 _).mpr
      ⟨[letterA], letterB, [letterA], _, _, _, rfl, .cons hmissing .nil, hread, rfl⟩
  · exact ((htaken _ _ _ _).2 (by simp) _).mpr ⟨_, .cons hfailA (.cons hfailB .nil), rfl⟩
  · exact hplaced (.leaf (.literal "b")) Grammar.isLibrary_syllableStore trivial trivial .start _ _
      hsyllable hletter rfl

end Parser
end FurthestFailure
