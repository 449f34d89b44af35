import FurthestFailure.Proofs.Recognition.Soundness
import Mathlib.Order.Filter.AtTopBot.Basic

/-! # What is derived is run

A derivation is finite, so from some depth on the run has room for it, and ends as the derivation
says. The proof is by induction on the derivation; with soundness it gives the exact correspondence,
and with it that no text has two outcomes.
-/
namespace FurthestFailure
set_option autoImplicit false

open Filter

/-- `x` ends with the store as it was and leaves `r`. -/
def Yields {α : Type} (store : Store) (r : Option (List Char)) (read text : List Char)
    (x : Engine (Outcome α)) : Prop :=
  ∃ o, x store = some (o, store) ∧ o.Leaves read text r

namespace Yields
variable {α β : Type} {store : Store} {r : Option (List Char)} {read text rest : List Char}

theorem failure {t : Trail} : Yields (α := α) store none read text (pure (.failure t)) :=
  ⟨_, rfl, .failure⟩

theorem still {v : α} {a : Option Trail} :
    Yields store (some text) read text (pure (.success ⟨v, .after read text, a⟩)) :=
  ⟨_, rfl, .still⟩

theorem success {matched : List Char} {v : α} {a : Option Trail} :
    Yields store (some rest) read (matched ++ rest)
      (pure (.success ⟨v, .after (read ++ matched) rest, a⟩)) :=
  ⟨_, rfl, .success⟩

theorem back {matched : List Char} {x : Engine (Outcome α)}
    (h : Yields store r (read ++ matched) rest x) : Yields store r read (matched ++ rest) x := by
  obtain ⟨o, hx, ho⟩ := h
  exact ⟨o, hx, ho.back⟩

theorem bind {x : Engine β} {b : β} {f : β → Engine (Outcome α)} (hx : x store = some (b, store))
    (h : Yields store r read text (f b)) : Yields store r read text (x >>= f) := by
  obtain ⟨o, hf, ho⟩ := h
  exact ⟨o, Option.bind_eq_some_iff.mpr ⟨_, hx, hf⟩, ho⟩

theorem bind_failure {x : Engine (Outcome β)} {f : Outcome β → Engine (Outcome α)}
    (h : Yields store none read text x) (hf : ∀ t, Yields store r read text (f (.failure t))) :
    Yields store r read text (x >>= f) := by
  obtain ⟨o, hx, ho⟩ := h
  cases ho
  exact bind hx (hf _)

theorem bind_success {x : Engine (Outcome β)} {f : Outcome β → Engine (Outcome α)}
    (h : Yields store (some rest) read text x)
    (hf : ∀ v matched a, matched ++ rest = text →
      Yields store r read text (f (.success ⟨v, .after (read ++ matched) rest, a⟩))) :
    Yields store r read text (x >>= f) := by
  obtain ⟨o, hx, ho⟩ := h
  cases ho
  exact bind hx (hf _ _ _ rfl)

theorem map {p : Parser Engine β} {c : Cursor} {f : β → α} (h : Yields store r read text (p c)) :
    Yields store r read text (p.map f c) := by
  obtain ⟨o, hp, ho⟩ := h
  refine bind hp ⟨o.map f, rfl, ?_⟩
  cases ho with
  | success => exact .success
  | failure => exact .failure

theorem describe {p : Parser Engine α} {c : Cursor} {label : String}
    (h : Yields store r read text (p c)) : Yields store r read text (p.describe label c) := by
  obtain ⟨o, hp, ho⟩ := h
  cases ho with
  | success => exact bind hp success
  | failure => exact bind hp failure

theorem mark {p : Parser Engine α} {c : Cursor} (h : Yields store r read text (p c)) :
    Yields store r read text (p.mark c) := by
  obtain ⟨o, hp, ho⟩ := h
  cases ho with
  | success => exact bind hp success
  | failure => exact bind hp failure

theorem optional {p : Parser Engine α} {c : Cursor} {rest : List Char}
    (h : Yields store (some rest) read text (p c)) :
    Yields store (some rest) read text (p.optional c) := by
  refine h.bind_success ?_
  rintro v matched a rfl
  exact success

theorem of_pos {c : Prop} [Decidable c] {x y : Engine (Outcome α)} (hc : c)
    (h : Yields store r read text x) : Yields store r read text (if c then x else y) := by
  rwa [if_pos hc]

theorem of_neg {c : Prop} [Decidable c] {x y : Engine (Outcome α)} (hc : ¬ c)
    (h : Yields store r read text y) : Yields store r read text (if c then x else y) := by
  rwa [if_neg hc]

theorem of_dite {c : Prop} [Decidable c] {x : c → Engine (Outcome α)}
    {y : ¬ c → Engine (Outcome α)} (hc : c) (h : Yields store r read text (x hc)) :
    Yields store r read text (if hc : c then x hc else y hc) := by
  rwa [dif_pos hc]

end Yields

namespace Form

def Everywhere (P : Grammar → Prop) : Form → Prop
  | one g | repeated g => g.Everywhere P
  | all gs | first gs => Grammar.AllEverywhere P gs
  | further item separator => item.Everywhere P ∧ separator.Everywhere P

/-- The run of the form to the given depth yields `r` on `text`, whatever was read before and
whatever the loop has collected. -/
def YieldsWithin (store : Store) (depth : Nat) (text : List Char) (r : Option (List Char)) :
    Form → Prop
  | one g => ∀ read, Yields store r read text (g.runWithin depth (.after read text))
  | all gs => ∀ read values trail, Yields store r read text
      (Parser.sequenceFrom (gs.map (Grammar.runWithin depth)) values trail (.after read text))
  | first gs => ∀ read trail, Yields store r read text
      (Parser.choiceFrom (gs.map (Grammar.runWithin depth)) trail (.after read text))
  | repeated g => ∀ read values trail, Yields store r read text
      ((g.runWithin depth).manyFrom Parser.roundLimit values trail (.after read text))
  | further item separator => ∀ read values trail, Yields store r read text
      (Parser.separatedFrom (item.runWithin depth) (separator.runWithin depth) Parser.roundLimit
        values trail (.after read text))

variable {store : Store} {text : List Char} {r : Option (List Char)}

theorem eventually_of_parts {g : Grammar} {parts : Nat → Prop} (h : ∀ᶠ depth in atTop, parts depth)
    (hg : ∀ depth, parts depth → (one g).YieldsWithin store (depth + 1) text r) :
    ∀ᶠ depth in atTop, (one g).YieldsWithin store depth text r := by
  rw [← map_add_atTop_eq_nat 1, eventually_map]
  exact h.mono hg

theorem yields_leaf_takes {l : Leaf} (hl : l.IsLibrary) {matched rest : List Char}
    (h : l.Takes matched rest) (depth : Nat) :
    (one (.leaf l)).YieldsWithin store (depth + 1) (matched ++ rest) (some rest) := by
  intro read
  obtain ⟨v, hv⟩ := (Leaf.takes_iff hl (Cursor.after read (matched ++ rest)).position).mp h
  have hrun : l.run (.after read (matched ++ rest)) =
      .success ⟨v, .after (read ++ matched) rest, none⟩ := by
    rw [Leaf.run_eq hl, Cursor.after_rest, hv, ← Cursor.advance_after]
    rfl
  rw [Grammar.runWithin, Grammar.parser]
  simp only [hrun]
  exact Yields.success

theorem yields_leaf_misses {l : Leaf} (hl : l.IsLibrary)
    (h : ∀ matched rest, matched ++ rest = text → ¬ l.Takes matched rest) (depth : Nat) :
    (one (.leaf l)).YieldsWithin store (depth + 1) text none := by
  intro read
  have hreading : l.reading? (Cursor.after read text).position text = none := by
    rcases hr : l.reading? (Cursor.after read text).position text with _ | ⟨matched, v⟩
    · rfl
    · obtain ⟨rest, rfl⟩ := Leaf.reading?_prefix hl hr
      exact absurd ((Leaf.takes_iff hl _).mpr ⟨v, hr⟩) (h matched rest rfl)
  rw [Grammar.runWithin, Grammar.parser]
  simp only [Leaf.run_eq hl, Cursor.after_rest, hreading]
  exact Yields.failure

theorem everywhere_replicate {P : Grammar → Prop} {g : Grammar} (hg : g.Everywhere P)
    (count : Nat) : (all (List.replicate count g)).Everywhere P := by
  refine Grammar.allEverywhere_iff.mpr fun g' hg' => ?_
  rw [List.eq_of_mem_replicate hg']
  exact hg

theorem yields_times {g : Grammar} {count depth : Nat}
    (h : (all (List.replicate count g)).YieldsWithin store depth text r) :
    (one (.times g count)).YieldsWithin store (depth + 1) text r := by
  intro read
  have hloop := h read [] none
  rw [List.map_replicate, ← Parser.timesFrom_eq_sequenceFrom] at hloop
  exact hloop.map

theorem yields_all_next {g : Grammar} {gs : List Grammar} {depth : Nat} {rest : List Char}
    (h : (one g).YieldsWithin store depth text (some rest))
    (hs : (all gs).YieldsWithin store depth rest r) :
    (all (g :: gs)).YieldsWithin store depth text r := by
  intro read values trail
  refine (h read).bind_success ?_
  rintro v matched a rfl
  exact (hs _ _ _).back

theorem yields_first_here {g : Grammar} {gs : List Grammar} {depth : Nat} {rest : List Char}
    (h : (one g).YieldsWithin store depth text (some rest)) :
    (first (g :: gs)).YieldsWithin store depth text (some rest) := by
  intro read trail
  refine (h read).bind_success ?_
  rintro v matched a rfl
  exact Yields.success

theorem yields_repeated_fail {g : Grammar} {depth : Nat}
    (h : (one g).YieldsWithin store depth text none) :
    (repeated g).YieldsWithin store depth text (some text) := by
  intro read values trail
  rw [Parser.manyFrom]
  exact (h read).bind_failure fun _ => Yields.still

theorem yields_repeated_still {g : Grammar} {depth : Nat}
    (h : (one g).YieldsWithin store depth text (some text)) :
    (repeated g).YieldsWithin store depth text (some text) := by
  intro read values trail
  rw [Parser.manyFrom]
  refine (h read).bind_success ?_
  intro v matched a hm
  obtain rfl : matched = [] := by simpa using hm
  exact Yields.of_pos (Cursor.index_after_eq_iff.mpr rfl) Yields.still

theorem yields_repeated_next {g : Grammar} {depth : Nat} {rest : List Char}
    (h : (one g).YieldsWithin store depth text (some rest)) (hne : rest ≠ text)
    (hs : (repeated g).YieldsWithin store depth rest r) :
    (repeated g).YieldsWithin store depth text r := by
  intro read values trail
  rw [Parser.manyFrom]
  refine (h read).bind_success ?_
  rintro v matched a rfl
  have hm : matched ≠ [] := by simpa using hne
  have hlt : rest.length < (matched ++ rest).length := by
    simpa using List.length_pos_iff.mpr hm
  refine Yields.of_neg (mt Cursor.index_after_eq_iff.mp hm) (Yields.of_dite (.inl hlt) ?_)
  rw [Parser.roundsLeft_of_shorter hlt]
  exact (hs _ _ _).back

theorem yields_further_end {item separator : Grammar} {depth : Nat}
    (h : (one separator).YieldsWithin store depth text none) :
    (further item separator).YieldsWithin store depth text (some text) := by
  intro read values trail
  rw [Parser.separatedFrom]
  exact (h read).bind_failure fun _ => Yields.still

theorem yields_further_fail {item separator : Grammar} {depth : Nat} {between : List Char}
    (h : (one separator).YieldsWithin store depth text (some between))
    (hi : (one item).YieldsWithin store depth between none) :
    (further item separator).YieldsWithin store depth text none := by
  intro read values trail
  rw [Parser.separatedFrom]
  refine (h read).bind_success ?_
  rintro v matched a rfl
  exact (hi _).back.bind_failure fun _ => Yields.failure

theorem yields_further_next {item separator : Grammar} {depth : Nat} {between rest : List Char}
    (h : (one separator).YieldsWithin store depth text (some between))
    (hi : (one item).YieldsWithin store depth between (some rest))
    (hs : (further item separator).YieldsWithin store depth rest r) :
    (further item separator).YieldsWithin store depth text r := by
  -- A round that takes nothing leads to the same list again.
  by_cases hne : rest = text
  · rwa [← hne]
  intro read values trail
  rw [Parser.separatedFrom]
  refine (h read).bind_success ?_
  rintro v matched a rfl
  refine Yields.back ((hi _).bind_success ?_)
  rintro w matched' b rfl
  have hlt : rest.length < (matched ++ (matched' ++ rest)).length := by
    have hpos : matched ++ matched' ≠ [] := by
      intro hnil
      rw [← List.append_assoc, hnil] at hne
      exact hne rfl
    rw [← List.append_assoc, List.length_append]
    exact Nat.lt_add_of_pos_left (List.length_pos_iff.mpr hpos)
  refine Yields.of_dite (.inl hlt) ?_
  rw [Parser.roundsLeft_of_shorter hlt]
  exact (hs _ _ _).back

theorem eventually_yields (hs : store.Everywhere Grammar.IsRecogniser) (hbuilt : store.IsBuilt)
    {form : Form} (h : Derives store.filled? form text r) :
    form.Everywhere Grammar.IsRecogniser →
      ∀ᶠ depth in atTop, form.YieldsWithin store depth text r := by
  -- What the premises have from some depth on, the conclusion has from the next depth on.
  induction h with
  | leaf_takes h =>
    intro hg
    exact eventually_of_parts (Eventually.of_forall fun _ => trivial) fun depth _ =>
      yields_leaf_takes hg h depth
  | leaf_misses h =>
    intro hg
    exact eventually_of_parts (Eventually.of_forall fun _ => trivial) fun depth _ =>
      yields_leaf_misses hg h depth
  | map _ ih =>
    intro hg
    exact eventually_of_parts (ih hg.2) fun depth h read => (h read).map
  | describe _ ih =>
    intro hg
    exact eventually_of_parts (ih hg.2) fun depth h read => (h read).describe
  | mark _ ih =>
    intro hg
    exact eventually_of_parts (ih hg.2) fun depth h read => (h read).mark.map
  | node _ ih =>
    intro hg
    exact eventually_of_parts (ih hg.2) fun depth h read => (h read).mark.map.map
  | holding _ ih =>
    intro hg
    exact eventually_of_parts (ih hg.2) fun depth h read => h read
  | sequence _ ih =>
    intro hg
    exact eventually_of_parts (ih hg.2) fun depth h read => (h read [] none).map
  | times _ ih =>
    intro hg
    exact eventually_of_parts (ih (everywhere_replicate hg.2 _)) fun depth h => yields_times h
  | all_nil =>
    intro _
    exact Eventually.of_forall fun depth read values trail => Yields.still
  | all_fail _ ih =>
    intro hg
    exact (ih hg.1).mono fun depth h read values trail =>
      (h read).bind_failure fun _ => Yields.failure
  | all_next _ _ ih ihs =>
    intro hg
    exact ((ih hg.1).and (ihs hg.2)).mono fun depth h => yields_all_next h.1 h.2
  | choice _ ih =>
    intro hg
    exact eventually_of_parts (ih hg.2) fun depth h read => h read none
  | first_nil =>
    intro _
    refine Eventually.of_forall fun depth read trail => ?_
    cases trail <;> exact Yields.failure
  | first_here _ ih =>
    intro hg
    exact (ih hg.1).mono fun depth h => yields_first_here h
  | first_next _ _ ih ihs =>
    intro hg
    exact ((ih hg.1).and (ihs hg.2)).mono fun depth h read trail =>
      (h.1 read).bind_failure fun _ => h.2 read _
  | many _ ih =>
    intro hg
    exact eventually_of_parts (ih hg.2) fun depth h read => (h read [] none).map
  | repeated_fail _ ih => 
    intro hg
    exact (ih hg).mono fun depth h => yields_repeated_fail h
  | repeated_still _ ih => 
    intro hg
    exact (ih hg).mono fun depth h => yields_repeated_still h
  | repeated_next _ hne _ ih ihs =>
    intro hg
    exact ((ih hg).and (ihs hg)).mono fun depth h => yields_repeated_next h.1 hne h.2
  | separatedBy_none _ ih =>
    intro hg
    exact eventually_of_parts (ih hg.2.1) fun depth h read =>
      ((h read).bind_failure fun _ => Yields.still).map
  | separatedBy_some _ _ ih ihs =>
    intro hg
    refine eventually_of_parts ((ih hg.2.1).and (ihs hg.2)) fun depth h read => Yields.map ?_
    refine (h.1 read).bind_success ?_
    rintro v matched a rfl
    exact (h.2 _ _ _).back
  | separatedBy1_none _ ih =>
    intro hg
    refine eventually_of_parts (ih hg.2.1) fun depth h read => Yields.map ?_
    exact (h read).bind_failure fun _ => Yields.failure
  | separatedBy1_some _ _ ih ihs =>
    intro hg
    refine eventually_of_parts ((ih hg.2.1).and (ihs hg.2)) fun depth h read => Yields.map ?_
    refine (h.1 read).bind_success ?_
    rintro v matched a rfl
    exact (h.2 _ _ _).back
  | further_end _ ih =>
    intro hg
    exact (ih hg.2).mono fun depth h => yields_further_end h
  | further_fail _ _ ih ihi =>
    intro hg
    exact ((ih hg.2).and (ihi hg.1)).mono fun depth h => yields_further_fail h.1 h.2
  | further_next _ _ _ ih ihi ihs =>
    intro hg
    exact ((ih hg.2).and ((ihi hg.1).and (ihs hg))).mono fun depth h =>
      yields_further_next h.1 h.2.1 h.2.2
  | lookahead_none _ ih =>
    intro hg
    exact eventually_of_parts (ih hg.2) fun depth h read =>
      (h read).bind_failure fun _ => Yields.failure
  | lookahead_some _ ih =>
    intro hg
    exact eventually_of_parts (ih hg.2) fun depth h read =>
      (h read).bind_success fun _ _ _ _ => Yields.still
  | optional_none _ ih =>
    intro hg
    exact eventually_of_parts (ih hg.2) fun depth h read =>
      ((h read).bind_failure fun _ => Yields.still).map
  | optional_some _ ih =>
    intro hg
    exact eventually_of_parts (ih hg.2) fun depth h read => (h read).optional.map
  | notFollowedBy_none _ ih =>
    intro hg
    exact eventually_of_parts (ih hg.2) fun depth h read =>
      ((h read).bind_failure fun _ => Yields.still).map
  | notFollowedBy_some _ ih =>
    intro hg
    exact eventually_of_parts (ih hg.2) fun depth h read =>
      ((h read).bind_success fun _ _ _ _ => Yields.failure).map
  | handle_filled hrule _ ih =>
    intro _
    refine eventually_of_parts (ih (hs.filled hrule)) fun depth h read => ?_
    exact Yields.bind (Store.enter_of_not_deferred (hbuilt _)) (by rw [hrule]; exact h read)
  | handle_empty hrule =>
    intro _
    refine eventually_of_parts (Eventually.of_forall fun _ => trivial) fun depth _ read => ?_
    exact Yields.bind (Store.enter_of_not_deferred (hbuilt _)) (by rw [hrule]; exact Yields.failure)

end Form

namespace Grammar
variable {store : Store} {g : Grammar}

theorem exists_runWithin_of_derives (hs : store.Everywhere IsRecogniser) (hbuilt : store.IsBuilt)
    (hg : g.Everywhere IsRecogniser) {text : List Char} {r : Option (List Char)}
    (h : Derives store.filled? (.one g) text r) (read : List Char) :
    ∃ n, ∀ depth, n ≤ depth → ∃ o, g.runWithin depth (.after read text) store = some (o, store) ∧
      o.unread? = r := by
  obtain ⟨n, hn⟩ := eventually_atTop.mp (Form.eventually_yields hs hbuilt h hg)
  refine ⟨n, fun depth hdepth => ?_⟩
  obtain ⟨o, ho, hleaves⟩ := hn depth hdepth read
  exact ⟨o, ho, hleaves.unread?_eq⟩

/-- A run from any cursor on a text ends with an outcome exactly where the relation derives it, and
the relation derives no two outcomes. -/
theorem run_iff_derives (hs : store.Everywhere IsRecogniser) (hbuilt : store.IsBuilt)
    (hg : g.Everywhere IsRecogniser) {text : List Char} {c : Cursor} (hc : c.Reached text) :
    (∀ r, (∃ depth o final, g.runWithin depth c store = some (o, final) ∧ o.unread? = r) ↔
        Derives store.filled? (.one g) c.rest r) ∧
      ∀ r r', Derives store.filled? (.one g) c.rest r → Derives store.filled? (.one g) c.rest r' →
        r = r' := by
  obtain ⟨read, rest, rfl, rfl⟩ := Cursor.reached_iff.mp hc
  refine ⟨fun r => ⟨?_, ?_⟩, ?_⟩
  · rintro ⟨depth, o, final, hrun, rfl⟩
    obtain ⟨_, r, hleaves, hd⟩ := runWithin_sound hs hbuilt hg depth read rest hrun
    rwa [hleaves.unread?_eq]
  · intro hd
    obtain ⟨n, hn⟩ := exists_runWithin_of_derives hs hbuilt hg hd read
    obtain ⟨o, hrun, ho⟩ := hn n (Nat.le_refl n)
    exact ⟨n, o, store, hrun, ho⟩
  · intro r r' hd hd'
    obtain ⟨n, hn⟩ := exists_runWithin_of_derives hs hbuilt hg hd read
    obtain ⟨n', hn'⟩ := exists_runWithin_of_derives hs hbuilt hg hd' read
    obtain ⟨o, hrun, rfl⟩ := hn (max n n') (Nat.le_max_left n n')
    obtain ⟨o', hrun', rfl⟩ := hn' (max n n') (Nat.le_max_right n n')
    rw [hrun] at hrun'
    cases hrun'
    rfl

/-- An `x` within any number of brackets, by way of the first slot. -/
def bracketed : Grammar :=
  .or (.sequence [.leaf (.literal "("), .handle 0 "bracketed", .leaf (.literal ")")])
    (.leaf (.oneOf "x"))

def bracketedStore : Store := { slots := #[{ state := .filled bracketed }] }

def bracketedOutcome : Outcome Value :=
  .success ⟨.list [.text "(", .text "x", .text ")"], .after ['(', 'x', ')'] ['y'],
    some ⟨⟨1, 1, 2⟩, .single "'('"⟩⟩

theorem run_iff_derives_bracketed :
    Derives bracketedStore.filled? (.one bracketed) ['(', 'x', ')', 'y'] (some ['y']) ∧
      ∀ r, Derives bracketedStore.filled? (.one bracketed) ['(', 'x', ')', 'y'] r →
        r = some ['y'] := by
  have hg : bracketed.Everywhere IsRecogniser := by
    simp [bracketed, Grammar.or, Everywhere, AllEverywhere, IsRecogniser, Leaf.IsLibrary]
  have hs : bracketedStore.Everywhere IsRecogniser := by
    intro s hmem
    obtain rfl : s = { state := .filled bracketed } := by simpa [bracketedStore] using hmem
    exact hg
  have hbuilt : bracketedStore.IsBuilt := by
    intro slot build
    rcases slot with _ | slot <;> simp [bracketedStore, Store.stateAt]
  have hrun : bracketed.runWithin 8 (.start ['(', 'x', ')', 'y']) bracketedStore =
      some (bracketedOutcome, bracketedStore) := rfl
  have hc : (Cursor.start ['(', 'x', ')', 'y']).Reached ['(', 'x', ')', 'y'] := .start
  obtain ⟨hiff, hunique⟩ := run_iff_derives hs hbuilt hg hc
  have hderived := (hiff _).mp ⟨8, bracketedOutcome, bracketedStore, hrun, rfl⟩
  exact ⟨hderived, fun r h => hunique r _ h hderived⟩

end Grammar
end FurthestFailure
