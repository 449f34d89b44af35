import FurthestFailure.Proofs.Chaining
import FurthestFailure.Proofs.FixedPoints
import FurthestFailure.Proofs.Progress
import FurthestFailure.Proofs.Termination.Nullable

/-! # Repetition by recursion

A repetition is a loop that collects values and trails on its way and may stop in a round that takes
nothing. What it leaves can be told from its first round on: there is nothing to collect, or there is a
value, and a repetition again behind it. So a grammar that calls itself after each item does the same,
although it puts the values and the trails together from the other end.
-/
namespace FurthestFailure
set_option autoImplicit false

theorem Cursor.Reached.length_lt {text : List Char} {c d : Cursor} (hc : c.Reached text)
    (hd : d.Reached text) (h : c.position.index < d.position.index) :
    d.rest.length < c.rest.length := by
  obtain ⟨matched, hrest, rfl⟩ := hc.exists_between hd (Nat.le_of_lt h)
  have hne : matched ≠ [] := by
    rintro rfl
    rw [advance_nil] at h
    exact Nat.lt_irrefl _ h
  have hpos := List.length_pos_of_ne_nil hne
  rw [hrest, List.length_append]
  omega

namespace Parser
variable {σ α : Type}

/-- Wherever it is run in the text, in a state of the kind, the parser ends and leaves such a state. The
cursor alone decides the outcome, and a success is in the text and no further back. -/
structure Steady (text : List Char) (I : σ → Prop) (p : Parser (StateT σ Option) α) : Prop where
  ends {c : Cursor} {s : σ} : c.Reached text → I s → ∃ o s', p c s = some (o, s') ∧ I s'
  same {c : Cursor} {s t s' t' : σ} {o o' : Outcome α} : c.Reached text → I s → I t →
    p c s = some (o, s') → p c t = some (o', t') → o = o'
  onward {c : Cursor} {s s' : σ} {u : Success α} : c.Reached text → I s →
    p c s = some (.success u, s') → u.rest.Reached text ∧ c.position.index ≤ u.rest.position.index

/-- A success is behind the cursor. -/
def Consumes (text : List Char) (I : σ → Prop) (p : Parser (StateT σ Option) α) : Prop :=
  ∀ ⦃c s u s'⦄, c.Reached text → I s → p c s = some (.success u, s') →
    u.rest.position.index ≠ c.position.index

/-- One round after another, up to one that fails or takes nothing. -/
inductive Repeats (p : Parser (StateT σ Option) α) : Cursor → σ → Success (List α) → σ → Prop
  | failed {c : Cursor} {s s' : σ} {t : Trail} (h : p c s = some (.failure t, s')) :
    Repeats p c s ⟨[], c, some t⟩ s'
  | still {c : Cursor} {s s' : σ} {u : Success α} (h : p c s = some (.success u, s'))
    (hi : u.rest.position.index = c.position.index) : Repeats p c s ⟨[], c, u.furthest⟩ s'
  | moved {c : Cursor} {s s' s'' : σ} {u : Success α} {w : Success (List α)}
    (h : p c s = some (.success u, s')) (hi : u.rest.position.index ≠ c.position.index)
    (hmore : Repeats p u.rest s' w s'') :
    Repeats p c s ⟨u.value :: w.value, w.rest, Trail.merge? u.furthest w.furthest⟩ s''

variable {p : Parser (StateT σ Option) α} {text : List Char} {I : σ → Prop}
variable {c : Cursor} {s s' s'' t t' : σ} {u : Success α} {w w' : Success (List α)}

/-- A repetition in the middle of its work puts before what is left to do what it has collected. -/
theorem manyFrom_eq (p : Parser (StateT σ Option) α) (rounds : Nat) (values : List α)
    (trail : Option Trail) (c : Cursor) : p.manyFrom rounds values trail c =
      (fun o => (o.map (values.reverse ++ ·)).withPrior trail) <$> p.manyWithin rounds c := by
  induction rounds, c using rounds_induction generalizing values trail with
  | round rounds c ih =>
    rw [manyWithin, manyFrom.eq_1, manyFrom.eq_1, map_bind]
    apply bind_congr
    intro o
    cases o with
    | failure t => simp [Outcome.map, Outcome.withPrior_success]
    | success u =>
      by_cases hi : u.rest.position.index = c.position.index
      · simp [hi, Outcome.map, Outcome.withPrior_success]
      · by_cases hl : u.rest.rest.length < c.rest.length ∨ 0 < rounds
        · simp only [if_neg hi, dif_pos hl]
          rw [ih _ hl, ih _ hl [u.value], ← comp_map]
          refine congrArg (· <$> p.manyWithin (roundsLeft rounds c u.rest) u.rest)
            (funext fun o => ?_)
          simp [Outcome.map_withPrior, Outcome.map_map, Outcome.withPrior_withPrior,
            Function.comp_def]
        · simp only [if_neg hi, dif_neg hl]
          rfl

section
variable {rounds : Nat}

theorem manyWithin_of_failed {t : Trail} (h : p c s = some (.failure t, s')) :
    p.manyWithin rounds c s = some (.success ⟨[], c, some t⟩, s') :=
  manyFrom_of_failed h

theorem manyWithin_of_still (h : p c s = some (.success u, s'))
    (hi : u.rest.position.index = c.position.index) :
    p.manyWithin rounds c s = some (.success ⟨[], c, u.furthest⟩, s') := by
  rw [manyWithin, manyFrom_of_still h hi, Trail.none_merge?]
  rfl

theorem manyWithin_of_moved (h : p c s = some (.success u, s'))
    (hi : u.rest.position.index ≠ c.position.index)
    (hl : u.rest.rest.length < c.rest.length ∨ 0 < rounds)
    (hmore : p.manyWithin (roundsLeft rounds c u.rest) u.rest s' = some (.success w, s'')) :
    p.manyWithin rounds c s =
      some (.success ⟨u.value :: w.value, w.rest, Trail.merge? u.furthest w.furthest⟩, s'') := by
  refine manyFrom_of_moved h hi hl ?_
  rw [manyFrom_eq, Trail.none_merge?]
  exact Option.bind_eq_some_iff.mpr ⟨_, hmore, rfl⟩

theorem repeats_of_manyWithin {o : Outcome (List α)}
    (h : p.manyWithin rounds c s = some (o, s')) : ∃ w, o = .success w ∧ Repeats p c s w s' := by
  induction rounds, c using rounds_induction generalizing s o with
  | round rounds c ih =>
    rw [manyWithin, manyFrom.eq_1] at h
    obtain ⟨⟨u | t, s₁⟩, hp, hrest⟩ := Option.bind_eq_some_iff.mp h
    · by_cases hi : u.rest.position.index = c.position.index
      · simp only [if_pos hi, Trail.none_merge?] at hrest
        cases hrest
        exact ⟨_, rfl, .still hp hi⟩
      · by_cases hl : u.rest.rest.length < c.rest.length ∨ 0 < rounds
        · simp only [if_neg hi, dif_pos hl, manyFrom_eq, Trail.none_merge?] at hrest
          obtain ⟨⟨o', s₂⟩, hmore, hlast⟩ := Option.bind_eq_some_iff.mp hrest
          cases hlast
          obtain ⟨w, rfl, hw⟩ := ih _ hl hmore
          exact ⟨_, rfl, .moved hp hi hw⟩
        · simp only [if_neg hi, dif_neg hl] at hrest
          cases hrest
    · cases hrest
      exact ⟨_, rfl, .failed hp⟩

/-- Whatever the parser, the loop ends within some number of rounds where its rounds come to an end, and
as they do. -/
theorem exists_manyWithin_iff {o : Outcome (List α)} :
    (∃ rounds, p.manyWithin rounds c s = some (o, s')) ↔
      ∃ w, o = .success w ∧ Repeats p c s w s' := by
  constructor
  · rintro ⟨rounds, h⟩
    exact repeats_of_manyWithin h
  · rintro ⟨w, rfl, hw⟩
    induction hw with
    | failed h => exact ⟨0, manyWithin_of_failed h⟩
    | still h hi => exact ⟨0, manyWithin_of_still h hi⟩
    | @moved c s s' s'' u w h hi _ ih =>
      obtain ⟨rounds, hmore⟩ := ih
      by_cases hl : u.rest.rest.length < c.rest.length
      · refine ⟨rounds, manyWithin_of_moved h hi (.inl hl) ?_⟩
        rwa [roundsLeft_of_shorter hl]
      · refine ⟨rounds + 1, manyWithin_of_moved h hi (.inr (Nat.succ_pos _)) ?_⟩
        rwa [roundsLeft, if_neg hl]

end

theorem many_of_moved (h : p c s = some (.success u, s'))
    (hi : u.rest.position.index ≠ c.position.index) (hl : u.rest.rest.length < c.rest.length)
    (hmore : p.many u.rest s' = some (.success w, s'')) : p.many c s =
      some (.success ⟨u.value :: w.value, w.rest, Trail.merge? u.furthest w.furthest⟩, s'') := by
  refine manyWithin_of_moved h hi (.inl hl) ?_
  rwa [roundsLeft_of_shorter hl]

theorem repeats_of_many {o : Outcome (List α)} (h : p.many c s = some (o, s')) :
    ∃ w, o = .success w ∧ Repeats p c s w s' :=
  repeats_of_manyWithin h

namespace GoesOn
variable (hp : p.GoesOn text I)
include hp

theorem shorter (hc : c.Reached text) (hs : I s) (h : p c s = some (.success u, s'))
    (hi : u.rest.position.index ≠ c.position.index) : u.rest.rest.length < c.rest.length := by
  have hle := hp.onward hc hs h
  exact hc.length_lt (hp.reached hc hs h) (by omega)

theorem many_of_repeats (hc : c.Reached text) (hs : I s) (h : Repeats p c s w s') :
    p.many c s = some (.success w, s') := by
  induction h with
  | failed h => exact manyWithin_of_failed h
  | still h hi => exact manyWithin_of_still h hi
  | moved h hi _ ih =>
    exact many_of_moved h hi (hp.shorter hc hs h hi) (ih (hp.reached hc hs h) (hp.kept hc hs h))

theorem exists_repeats (hends : ∀ d t, d.Reached text → I t → ∃ o t', p d t = some (o, t'))
    (hc : c.Reached text) (hs : I s) : ∃ w s', Repeats p c s w s' := by
  induction hn : c.rest.length using Nat.strongRecOn generalizing c s with
  | ind n ih =>
    obtain ⟨o, s', h⟩ := hends c s hc hs
    cases o with
    | failure t => exact ⟨_, _, .failed h⟩
    | success u =>
      by_cases hi : u.rest.position.index = c.position.index
      · exact ⟨_, _, .still h hi⟩
      · obtain ⟨w, s'', hw⟩ :=
          ih _ (hn ▸ hp.shorter hc hs h hi) (hp.reached hc hs h) (hp.kept hc hs h) rfl
        exact ⟨_, _, .moved h hi hw⟩

theorem kept_of_repeats (hc : c.Reached text) (hs : I s) (h : Repeats p c s w s') :
    I s' ∧ w.rest.Reached text ∧ c.position.index ≤ w.rest.position.index := by
  induction h with
  | failed h => exact ⟨hp.kept hc hs h, hc, Nat.le_refl _⟩
  | still h hi => exact ⟨hp.kept hc hs h, hc, Nat.le_refl _⟩
  | moved h hi _ ih =>
    obtain ⟨hs', hreached, hle⟩ := ih (hp.reached hc hs h) (hp.kept hc hs h)
    exact ⟨hs', hreached, Nat.le_trans (hp.onward hc hs h) hle⟩

end GoesOn

namespace Steady
variable (hp : p.Steady text I)
include hp

theorem kept {o : Outcome α} (hc : c.Reached text) (hs : I s) (h : p c s = some (o, s')) : I s' := by
  obtain ⟨o', s'', h', hs'⟩ := hp.ends hc hs
  rw [h] at h'
  cases h'
  exact hs'

theorem goesOn : p.GoesOn text I where
  kept := hp.kept
  reached hc hs h := (hp.onward hc hs h).1
  onward hc hs h := (hp.onward hc hs h).2

theorem exists_repeats (hc : c.Reached text) (hs : I s) : ∃ w s', Repeats p c s w s' := by
  refine hp.goesOn.exists_repeats (fun d t hd ht => ?_) hc hs
  obtain ⟨o, t', h, -⟩ := hp.ends hd ht
  exact ⟨o, t', h⟩

theorem same_of_repeats (hc : c.Reached text) (hs : I s) (ht : I t) (h : Repeats p c s w s')
    (h' : Repeats p c t w' t') : w = w' := by
  induction h generalizing t w' with
  | failed h =>
    cases h' with
    | failed h' => cases hp.same hc hs ht h h'; rfl
    | still h' | moved h' => cases hp.same hc hs ht h h'
  | still h hi =>
    cases h' with
    | failed h' => cases hp.same hc hs ht h h'
    | still h' => cases hp.same hc hs ht h h'; rfl
    | moved h' hi' => cases hp.same hc hs ht h h'; exact absurd hi hi'
  | moved h hi _ ih =>
    cases h' with
    | failed h' => cases hp.same hc hs ht h h'
    | still h' hi' => cases hp.same hc hs ht h h'; exact absurd hi' hi
    | moved h' _ hmore' =>
      cases hp.same hc hs ht h h'
      rw [ih (hp.onward hc hs h).1 (hp.kept hc hs h) (hp.kept hc ht h') hmore']

/-- A repetition that is run again where it stopped has nothing to add. -/
theorem repeats_again (hc : c.Reached text) (hs : I s) (h : Repeats p c s w s') :
    ∃ a s'', Repeats p w.rest s' ⟨[], w.rest, a⟩ s'' ∧ Trail.merge? w.furthest a = w.furthest := by
  induction h with
  | failed h =>
    obtain ⟨o, _, h', -⟩ := hp.ends hc (hp.kept hc hs h)
    cases hp.same hc hs (hp.kept hc hs h) h h'
    exact ⟨_, _, .failed h', Trail.merge?_self _⟩
  | still h hi =>
    obtain ⟨o, _, h', -⟩ := hp.ends hc (hp.kept hc hs h)
    cases hp.same hc hs (hp.kept hc hs h) h h'
    exact ⟨_, _, .still h' hi, Trail.merge?_self _⟩
  | moved h hi _ ih =>
    obtain ⟨a, s'', hagain, hmerge⟩ := ih (hp.onward hc hs h).1 (hp.kept hc hs h)
    exact ⟨a, s'', hagain, by rw [Trail.merge?_assoc, hmerge]⟩

/-- Repetition is steady, and it succeeds. -/
theorem many : p.many.Steady text I where
  ends hc hs := by
    obtain ⟨w, s', hw⟩ := hp.exists_repeats hc hs
    exact ⟨_, s', hp.goesOn.many_of_repeats hc hs hw, (hp.goesOn.kept_of_repeats hc hs hw).1⟩
  same hc hs ht h h' := by
    obtain ⟨w, rfl, hw⟩ := repeats_of_many h
    obtain ⟨w', rfl, hw'⟩ := repeats_of_many h'
    rw [hp.same_of_repeats hc hs ht hw hw']
  onward hc hs h := by
    obtain ⟨w, ⟨rfl⟩, hw⟩ := repeats_of_many h
    exact (hp.goesOn.kept_of_repeats hc hs hw).2

theorem map {β : Type} (f : α → β) : (p.map f).Steady text I where
  ends hc hs := by
    obtain ⟨o, s', h, hs'⟩ := hp.ends hc hs
    exact ⟨_, s', map_of_outcome f h, hs'⟩
  same hc hs ht h h' := by
    obtain ⟨o, hrun, rfl⟩ := return_eq_some_iff.mp h
    obtain ⟨o', hrun', rfl⟩ := return_eq_some_iff.mp h'
    rw [hp.same hc hs ht hrun hrun']
  onward hc hs h := by
    obtain ⟨o | t, hrun, ho⟩ := return_eq_some_iff.mp h
    · cases ho
      exact hp.onward hc hs hrun
    · cases ho

end Steady
end Parser

/-- The item in front of a list. -/
def Value.cons (v : Value) : Value → Value
  | list items => list (v :: items)
  | _ => null

/-- Items up to the first failure, one in front of the list of all that come after it. -/
def Grammar.oneByOne (item itself : Grammar) : Grammar :=
  (item.continued fun v => itself.map v.cons).or (.leaf (.succeed (.list [])))

/-- Items up to the first failure, by a grammar that calls itself. -/
def Assembling.repeating (label : String) (item : Grammar) : Assembling Grammar :=
  recursive label fun itself => pure (item.oneByOne itself)

namespace Grammar
variable {g : Grammar} {text : List Char} {I : Store → Prop} {c : Cursor} {s s' : Store}
variable {w : Success (List Value)}

theorem unbounded_oneByOne (item itself : Grammar) : (item.oneByOne itself).unbounded =
    Parser.choice [item.unbounded.chain fun v => itself.unbounded.map v.cons,
      Parser.succeed (.list [])] := by
  simp only [oneByOne, Grammar.or, unbounded_choice, List.map_cons, List.map_nil,
    unbounded_continued, unbounded_map, unbounded_succeed]

theorem filled_after {h : Grammar} {slot : Nat} {o : Outcome Value} (hslot : s.filled? slot = some h)
    (hrun : g.unbounded c s = some (o, s')) : s'.filled? slot = some h := by
  obtain ⟨depth, hdepth⟩ := unbounded_eq_some_iff.mp hrun
  have hlasting := Store.lasting_stateAt (K := (· = .filled h)) (by rintro _ k rfl; rfl) slot
  obtain ⟨_, hst, rfl⟩ :=
    lasts_after hlasting g.everywhere_true ⟨_, Store.filled?_eq_some_iff.mp hslot, rfl⟩ hdepth
  exact Store.filled?_eq_some_iff.mpr hst

/-- The grammar that calls itself takes one call for each round. -/
theorem handle_of_repeats (hg : g.unbounded.Steady text I) (hconsumes : g.unbounded.Consumes text I)
    {slot : Nat} {label : String} (hc : c.Reached text) (hs : I s)
    (hslot : s.filled? slot = some (g.oneByOne (.handle slot label)))
    (h : Parser.Repeats g.unbounded c s w s') : (handle slot label).unbounded c s =
      some (.success ⟨.list w.value, w.rest, w.furthest⟩, s') := by
  induction h with
  | failed h =>
    rw [unbounded_handle hslot, unbounded_oneByOne]
    rw [Parser.choice_of_failure (Parser.chain_of_failure _ h) (o := Cursor.succeed _ (.list [])) rfl]
    rfl
  | still h hi => exact absurd hi (hconsumes hc hs h)
  | moved h hi hmore ih =>
    have hlater := ih (hg.onward hc hs h).1 (hg.kept hc hs h) (filled_after hslot h)
    rw [unbounded_handle hslot, unbounded_oneByOne]
    apply Parser.choice_of_success
    rw [Parser.chain_of_success h (Parser.map_of_outcome _ hlater)]
    rfl

theorem repeating_performed (label : String) (item : Grammar) (run : Grammar → Parser Engine Value)
    (s : Store) : ∃ slot t, (Assembling.repeating label item .done).perform run s =
        some (.ok (.holding [slot] (.handle slot label)), t) ∧
      t.filled? slot = some (item.oneByOne (.handle slot label)) := by
  refine ⟨_, _, Assembly.perform_define .., ?_⟩
  rw [Store.filled?_eq_some_iff, Store.stateAt_defined, if_pos rfl, Store.stateAt_push, if_pos rfl]
  rfl

/-- Repetition ends and succeeds, and its first round and a repetition behind it tell all that it leaves. A
repetition where it stopped adds nothing. If the item always takes something, the grammar that calls
itself does the same. -/
theorem many_laws (hg : g.unbounded.Steady text I) :
    (many g).unbounded.Steady text I ∧
    (∀ c s, c.Reached text → I s →
      (∃ vs rest a s', (many g).unbounded c s = some (.success ⟨.list vs, rest, a⟩, s')) ∧
      (∀ t s', g.unbounded c s = some (.failure t, s') →
        (many g).unbounded c s = some (.success ⟨.list [], c, some t⟩, s')) ∧
      (∀ u s', g.unbounded c s = some (.success u, s') →
        u.rest.position.index = c.position.index →
        (many g).unbounded c s = some (.success ⟨.list [], c, u.furthest⟩, s')) ∧
      (∀ u s', g.unbounded c s = some (.success u, s') →
        u.rest.position.index ≠ c.position.index →
        ∃ vs rest a s'', (many g).unbounded u.rest s' = some (.success ⟨.list vs, rest, a⟩, s'') ∧
          (many g).unbounded c s =
            some (.success ⟨.list (u.value :: vs), rest, Trail.merge? u.furthest a⟩, s'')) ∧
      ∀ vs rest a s', (many g).unbounded c s = some (.success ⟨.list vs, rest, a⟩, s') →
        ∃ b s'', (many g).unbounded rest s' = some (.success ⟨.list [], rest, b⟩, s'') ∧
          Trail.merge? a b = a) ∧
    (g.unbounded.Consumes text I → ∀ label run s, ∃ r t,
      (Assembling.repeating label g .done).perform run s = some (.ok r, t) ∧
        (I t → ∀ c, c.Reached text → r.unbounded c t = (many g).unbounded c t)) := by
  have hmany : ∀ {c s w s'}, c.Reached text → I s → Parser.Repeats g.unbounded c s w s' →
      (many g).unbounded c s = some (.success ⟨.list w.value, w.rest, w.furthest⟩, s') := by
    intro c s w s' hc hs hw
    rw [unbounded_many]
    exact Parser.map_of_outcome Value.list (hg.goesOn.many_of_repeats hc hs hw)
  refine ⟨?_, fun c s hc hs => ⟨?_, ?_, ?_, ?_, ?_⟩, ?_⟩
  · rw [unbounded_many]
    exact hg.many.map Value.list
  · obtain ⟨w, s', hw⟩ := hg.exists_repeats hc hs
    exact ⟨_, _, _, s', hmany hc hs hw⟩
  · exact fun t s' h => hmany hc hs (.failed h)
  · exact fun u s' h hi => hmany hc hs (.still h hi)
  · intro u s' h hi
    have hc' := (hg.onward hc hs h).1
    have hs' := hg.kept hc hs h
    obtain ⟨w, s'', hw⟩ := hg.exists_repeats hc' hs'
    exact ⟨_, _, _, s'', hmany hc' hs' hw, hmany hc hs (.moved h hi hw)⟩
  · intro vs rest a s' h
    obtain ⟨w, s'', hw⟩ := hg.exists_repeats hc hs
    rw [hmany hc hs hw] at h
    cases h
    obtain ⟨b, _, hagain, hmerge⟩ := hg.repeats_again hc hs hw
    obtain ⟨hs', hrest, -⟩ := hg.goesOn.kept_of_repeats hc hs hw
    exact ⟨b, _, hmany hrest hs' hagain, hmerge⟩
  · intro hconsumes label run s
    obtain ⟨slot, t, hmade, hslot⟩ := repeating_performed label g run s
    refine ⟨_, t, hmade, fun ht c hc => ?_⟩
    obtain ⟨w, t', hw⟩ := hg.exists_repeats hc ht
    rw [unbounded_holding, handle_of_repeats hg hconsumes hc ht hslot hw, hmany hc ht hw]

theorem ends_of_keeps (hs : s.Scoped) (hscopes : s.Scopes g) {t t' : Store} {o : Outcome Value}
    (ht : s.Keeps t) (h : g.unbounded c t = some (o, t')) : g.Ends c s o := by
  obtain ⟨depth, hdepth⟩ := unbounded_eq_some_iff.mp h
  obtain ⟨⟨o', _⟩, hr, hleft⟩ :=
    anewWithin_of_runWithin depth (Nat.le_refl depth) hscopes rfl ht hdepth
  obtain ⟨rfl, -⟩ := Correspondence.lockstep_left_iff.mp hleft
  exact (ends_iff hs hscopes).mpr ⟨depth, hr⟩

theorem exists_run_of_ends (hs : s.Scoped) (hscopes : s.Scopes g) {t : Store} {o : Outcome Value}
    (ht : s.Keeps t) (h : g.Ends c s o) : ∃ t', g.unbounded c t = some (o, t') ∧ s.Keeps t' := by
  obtain ⟨n, hn⟩ := (ends_iff hs hscopes).mp h
  obtain ⟨⟨o', t'⟩, hr, hleft⟩ := unbounded_of_anewWithin n hscopes rfl ht hn
  obtain ⟨rfl, hkeeps⟩ := Correspondence.lockstep_left_iff.mp hleft
  exact ⟨t', hr, hkeeps⟩

/-- In a store, and in all that keep its meaning, a grammar of the library is steady where it ends. -/
theorem steady_of_ends (hs : s.Scoped) (hscopes : s.Scopes g) (hg : g.IsLibrary) (hlib : s.IsLibrary)
    (hends : ∀ c, c.Reached text → ∃ o, g.Ends c s o) : g.unbounded.Steady text s.Keeps where
  ends {c t} hc ht := by
    obtain ⟨o, ho⟩ := hends c hc
    exact ⟨o, exists_run_of_ends hs hscopes ht ho⟩
  same hc ht ht' h h' := by
    obtain ⟨_, _, hrun⟩ := ends_of_keeps hs hscopes ht h
    obtain ⟨_, _, hrun'⟩ := ends_of_keeps hs hscopes ht' h'
    exact congrArg Prod.fst (runWithin_agrees hrun hrun')
  onward hc ht h := by
    obtain ⟨_, _, hrun⟩ := ends_of_keeps hs hscopes ht h
    exact onward_of_runWithin hg hlib hc hrun

theorem keeps_repeating (hs : s.Scoped) (hscopes : s.Scopes g) {label : String}
    {run : Grammar → Parser Engine Value} {r : Grammar} {t : Store}
    (h : (Assembling.repeating label g .done).perform run s = some (.ok r, t)) : s.Keeps t := by
  have hbuild : s.Uniform fun itself => .done (g.oneByOne itself) := by
    intro ρ hρ itself itself' hitself
    have hg : g.Renamed ρ g := Renamed.mono hρ hscopes
    simp [Assembly.Renamed, oneByOne, Grammar.or, continued, Renamed, AllRenamed, bare, hg, hitself]
  have hadmits : s.Admits .builder (Assembling.repeating label g .done) :=
    Assembling.recursive_admitted hbuild label
  obtain ⟨ht, -, hkept⟩ := hs.perform hadmits h
  exact .of_kept hs ht hkept

/-- A leaf that matches no empty text takes something, whatever the state. -/
theorem consumes_leaf {l : Leaf} (hl : l.IsLibrary) (h : ¬ l.MatchesEmpty) (text : List Char)
    (I : Store → Prop) : (leaf l).unbounded.Consumes text I := by
  intro c s u s' _ _ hrun hi
  rw [unbounded_leaf] at hrun
  have hu : l.run c = .success u := congrArg Prod.fst (Option.some.inj hrun)
  exact h ⟨c, u, hu, (Leaf.onward_of_library hl hu).index_eq_iff.mp hi⟩

theorem consumes_within {I : Store → Prop} (h : g.unbounded.Consumes text I) (depth : Nat) :
    (g.runWithin depth).Consumes text I :=
  fun _ _ _ _ hc hs hrun => h hc hs (unbounded_eq_some_iff.mpr ⟨depth, hrun⟩)

/-- Syllables are put off until the first of them is read. -/
def syllableStore : Store := { slots := #[{ state := .deferred (.done (.leaf (.literal "ab"))) }] }

def syllable : Grammar := .handle 0 "syllable"

theorem scoped_syllableStore : syllableStore.Scoped := by
  rintro (_ | i) hi
  · exact ⟨_, _, rfl, rfl, .deferred ⟨_, rfl, rfl⟩⟩
  · exact absurd hi (by simp [syllableStore])

theorem scopes_syllable : syllableStore.Scopes syllable := ⟨0, rfl, rfl, Nat.zero_lt_one⟩

theorem isLibrary_syllableStore : syllableStore.IsLibrary := by
  simp [syllableStore, Store.Everywhere, SlotState.Everywhere, Assembly.Everywhere, Everywhere,
    IsLibraryLeaf, Leaf.IsLibrary]

def syllables : Outcome Value :=
  .success ⟨.list [.text "ab"], .after ['a', 'b'] ['c'], some (.failure ⟨2, 1, 3⟩ "'ab'")⟩

theorem many_laws_syllables :
    syllable.unbounded.Steady ['a', 'b', 'c'] syllableStore.Keeps ∧
      syllable.unbounded.Consumes ['a', 'b', 'c'] syllableStore.Keeps ∧
      (∃ s', (many syllable).unbounded (.start ['a', 'b', 'c']) syllableStore = some (syllables, s') ∧
        ∃ b s'', (many syllable).unbounded (.after ['a', 'b'] ['c']) s' =
            some (.success ⟨.list [], .after ['a', 'b'] ['c'], b⟩, s'') ∧
          Trail.merge? syllables.trail? b = syllables.trail?) ∧
      ∃ r t, (Assembling.repeating "syllables" syllable .done).perform Grammar.run syllableStore =
          some (.ok r, t) ∧
        r.unbounded (.start ['a', 'b', 'c']) t =
          (many syllable).unbounded (.start ['a', 'b', 'c']) t := by
  have hs := scoped_syllableStore
  have hscopes := scopes_syllable
  have hends : ∀ c, syllable.Ends c syllableStore ((Leaf.literal "ab").run c) :=
    fun c => ⟨2, _, rfl⟩
  have hsteady : syllable.unbounded.Steady ['a', 'b', 'c'] syllableStore.Keeps :=
    steady_of_ends hs hscopes trivial isLibrary_syllableStore fun c _ => ⟨_, hends c⟩
  have hconsumes : syllable.unbounded.Consumes ['a', 'b', 'c'] syllableStore.Keeps := by
    intro c t u t' _ ht h
    obtain ⟨_, _, hrun⟩ := ends_of_keeps hs hscopes ht h
    obtain ⟨_, _, hrun'⟩ := hends c
    have hread : (Leaf.literal "ab").run c = .success u :=
      congrArg Prod.fst (runWithin_agrees hrun' hrun)
    intro hi
    rw [Leaf.run, Leaf.literalAt] at hread
    split at hread
    · cases hread
      have hpos := Char.utf8Size_pos 'a'
      simp [Cursor.advance] at hi
      omega
    · cases hread
  obtain ⟨-, hlaws, hrecursive⟩ := many_laws hsteady
  obtain ⟨r, t, hmade, hsame⟩ := hrecursive hconsumes "syllables" Grammar.run syllableStore
  have hrun : (many syllable).unbounded (.start ['a', 'b', 'c']) syllableStore =
      some (syllables, { slots := #[{ state := .filled (.leaf (.literal "ab")), builds := 1 }] }) :=
    unbounded_eq_some_iff.mpr ⟨5, Option.bind_eq_some_iff.mpr ⟨_, Parser.manyFrom_of_moved rfl
      (by decide) (by decide) (Parser.manyFrom_of_failed rfl), rfl⟩⟩
  obtain ⟨-, -, -, -, hagain⟩ := hlaws _ _ .start (.refl hs)
  exact ⟨hsteady, hconsumes, ⟨_, hrun, hagain _ _ _ _ hrun⟩, r, t, hmade,
    hsame (keeps_repeating hs hscopes hmade) _ .start⟩

end Grammar
end FurthestFailure
