import FurthestFailure.Diagnostic
import FurthestFailure.Proofs.Brackets.Words
import FurthestFailure.Proofs.Chaining

/-! # A grammar that counts brackets

The grammar that reads an `x` in any number of brackets refers to itself through one slot. A run of
it takes a text to where the text stops being like a word, by induction on the text: the failure of
the innermost run is deeper than those that come after it on the way out, so it is the one that is
reported, with all that was expected there.
-/
namespace FurthestFailure
set_option autoImplicit false

namespace Parser
variable {α : Type} {p : Parser Engine α} {t t' : Store}

theorem tryParse_of_outcome {settings : Settings} {text : List Char} {o : Outcome α}
    (h : p (.start text) t = some (o, t')) : p.tryParse settings text t =
      some ((o.under settings).toExcept settings text, t') := by
  refine Option.bind_eq_some_iff.mpr ⟨(o.under settings, t'), ?_, rfl⟩
  exact Option.bind_eq_some_iff.mpr ⟨(o, t'), h, rfl⟩

end Parser

namespace Grammar
variable {s : String} {before rest : List Char} {t : Store}

theorem unbounded_literal : (leaf (.literal s)).unbounded (.after before (s.toList ++ rest)) t =
    some (.success ⟨.text s, .after (before ++ s.toList) rest, none⟩, t) := by
  have hs : s.toList.isPrefixOf (s.toList ++ rest) = true :=
    List.isPrefixOf_iff_prefix.mpr (List.prefix_append _ _)
  rw [unbounded_leaf, ← Cursor.advance_after]
  rw [Leaf.run_eq (l := .literal s) trivial, Leaf.reading?, Cursor.after_rest, if_pos hs]
  rfl

theorem unbounded_literal_missing (before : List Char) (h : ¬ s.toList <+: rest) :
    (leaf (.literal s)).unbounded (.after before rest) t =
      some (.failure (.failure (Position.start.advancedOver before) (Leaf.literal s).label),
        t) := by
  rw [unbounded_leaf, Leaf.run_eq (l := .literal s) trivial, Leaf.reading?, Cursor.after_rest,
    if_neg (mt List.isPrefixOf_iff_prefix.mp h)]
  rfl

end Grammar

namespace Brackets

open Grammar
open List (replicate)

/-- An `x` counts nothing; brackets count one more than what is `nested` in them. -/
def bracketed (nested : Grammar) : Grammar :=
  ((nested.wrap (.leaf (.literal "(")) (.leaf (.literal ")"))).map Value.successor).or
    ((Grammar.leaf (.literal "x")).result (.number 0))

/-- Brackets in brackets, to any number. -/
def nesting (label : String) : Assembling Grammar :=
  Assembling.recursive label fun nested => pure (bracketed nested)

/-- The failure behind `read` where these tokens could have followed. -/
def missing (read : List Char) (tokens : List String) : Trail :=
  ⟨Position.start.advancedOver read, .ofList (tokens.map fun s => (Leaf.literal s).label)⟩

/-- What a run says of a text that stands behind `before`. -/
inductive Says (before : List Char) : List Char → Outcome Value → Prop
  | opening (n : Nat) (rest : List Char) (h : ∀ c ∈ rest.head?, c ≠ '(' ∧ c ≠ 'x') :
    Says before (replicate n '(' ++ rest)
      (.failure (missing (before ++ replicate n '(') ["(", "x"]))
  | closing (n k : Nat) (rest : List Char) (hk : k < n) (h : ∀ c ∈ rest.head?, c ≠ ')') :
    Says before (closing n k ++ rest) (.failure (missing (before ++ closing n k) [")"]))
  | whole (n : Nat) (rest : List Char) :
    Says before (word n ++ rest) (.success ⟨.number n, .after (before ++ word n) rest,
      some (missing (before ++ replicate n '(') ["("])⟩)

section
variable {nested : Grammar} {before rest : List Char} {t : Store} {o : Outcome Value} {a : Trail}

theorem token_missing {x : Char} {text : List Char} (h : ∀ c ∈ text.head?, c ≠ x) :
    ¬ [x] <+: text := by
  rintro ⟨rest, rfl⟩
  exact h x rfl rfl

theorem bracketed_eq : (bracketed nested).unbounded = Parser.choice
    [(nested.wrap (leaf (.literal "(")) (leaf (.literal ")"))).unbounded.map Value.successor,
      (leaf (.literal "x")).unbounded.map fun _ => .number 0] := by
  rw [bracketed, Grammar.or, unbounded_choice, List.map_cons, List.map_singleton, result,
    unbounded_map, unbounded_map]

theorem wrap_eq : (nested.wrap (leaf (.literal "(")) (leaf (.literal ")"))).unbounded =
    (leaf (.literal "(")).unbounded.chain fun _ => nested.unbounded.chain fun v =>
      (leaf (.literal ")")).unbounded.chain fun _ => Parser.succeed v := by
  rw [unbounded_wrap]
  simp only [unbounded_continued, unbounded_succeed]

theorem wrap_of_no_opening (h : ∀ c ∈ rest.head?, c ≠ '(') :
    (nested.wrap (leaf (.literal "(")) (leaf (.literal ")"))).unbounded (.after before rest) t =
      some (.failure (missing before ["("]), t) := by
  rw [wrap_eq]
  exact Parser.chain_of_failure _ (unbounded_literal_missing (s := "(") _ (token_missing h))

theorem bracketed_of_x : (bracketed nested).unbounded (.after before ('x' :: rest)) t =
    some (.success ⟨.number 0, .after (before ++ ['x']) rest, some (missing before ["("])⟩, t) := by
  rw [bracketed_eq]
  exact Parser.choice_of_failure (Parser.map_of_outcome _ (wrap_of_no_opening (by simp)))
    (Parser.map_of_outcome _ (unbounded_literal (s := "x")))

theorem bracketed_of_neither (h : ∀ c ∈ rest.head?, c ≠ '(' ∧ c ≠ 'x') :
    (bracketed nested).unbounded (.after before rest) t =
      some (.failure (missing before ["(", "x"]), t) := by
  have hwrap : (nested.wrap (leaf (.literal "(")) (leaf (.literal ")"))).unbounded
      (.after before rest) t = some (.failure (missing before ["("]), t) :=
    wrap_of_no_opening fun c hc => (h c hc).1
  have hx := unbounded_literal_missing (s := "x") (t := t) before
    (token_missing fun c hc => (h c hc).2)
  have hboth : (missing before ["("]).merge (missing before ["x"]) = missing before ["(", "x"] := by
    rw [Trail.merge_of_eq (a := missing before ["("]) (b := missing before ["x"]) rfl, missing,
      Trail.mk.injEq]
    exact ⟨rfl, Labels.ext fun _ => by simp [missing]⟩
  rw [bracketed_eq, Parser.choice_of_failure (Parser.map_of_outcome _ hwrap)
    (Parser.map_of_outcome _ hx)]
  exact congrArg (fun b => some (Outcome.failure b, t)) hboth

/-- A failure within brackets is deeper than the missing `x`. -/
theorem bracketed_of_wrap_failure (ha : Text.byteLength before < a.position.index)
    (h : (nested.wrap (leaf (.literal "(")) (leaf (.literal ")"))).unbounded
      (.after before ('(' :: rest)) t = some (.failure a, t)) :
    (bracketed nested).unbounded (.after before ('(' :: rest)) t = some (.failure a, t) := by
  have hx : (leaf (.literal "x")).unbounded (.after before ('(' :: rest)) t =
      some (.failure (missing before ["x"]), t) :=
    unbounded_literal_missing (s := "x") before (by simp)
  rw [bracketed_eq, Parser.choice_of_failure (Parser.map_of_outcome _ h)
    (Parser.map_of_outcome _ hx)]
  have hdeep : (missing before ["x"]).position.index < a.position.index := by
    simpa [missing, Position.start] using ha
  exact congrArg (fun b => some (Outcome.failure b, t)) (Trail.merge_of_gt hdeep)

theorem wrap_of_opening (h : (nested.unbounded.chain fun v =>
      (leaf (.literal ")")).unbounded.chain fun _ => Parser.succeed v)
        (.after (before ++ ['(']) rest) t = some (o, t)) :
    (nested.wrap (leaf (.literal "(")) (leaf (.literal ")"))).unbounded
      (.after before ('(' :: rest)) t = some (o, t) := by
  rw [wrap_eq]
  have hopen : (leaf (.literal "(")).unbounded (.after before ('(' :: rest)) t =
      some (.success ⟨.text "(", .after (before ++ ['(']) rest, none⟩, t) :=
    unbounded_literal (s := "(")
  rw [Parser.chain_of_success hopen h, Outcome.withPrior_none]

theorem bracketed_of_failure (ha : Text.byteLength before < a.position.index)
    (h : nested.unbounded (.after (before ++ ['(']) rest) t = some (.failure a, t)) :
    (bracketed nested).unbounded (.after before ('(' :: rest)) t = some (.failure a, t) :=
  bracketed_of_wrap_failure ha (wrap_of_opening (Parser.chain_of_failure _ h))

variable {v : Value} {read : List Char}

theorem bracketed_of_unclosed (ha : a.position.index < (missing read [")"]).position.index)
    (hread : Text.byteLength before < (missing read [")"]).position.index) {unread : List Char}
    (hunread : ∀ c ∈ unread.head?, c ≠ ')')
    (h : nested.unbounded (.after (before ++ ['(']) rest) t =
      some (.success ⟨v, .after read unread, some a⟩, t)) :
    (bracketed nested).unbounded (.after before ('(' :: rest)) t =
      some (.failure (missing read [")"]), t) := by
  have hclose := unbounded_literal_missing (s := ")") (t := t) read (token_missing hunread)
  refine bracketed_of_wrap_failure hread (wrap_of_opening ?_)
  rw [Parser.chain_of_success h (Parser.chain_of_failure _ hclose)]
  exact congrArg (fun b => some (Outcome.failure b, t)) (Trail.merge_of_lt ha)

theorem bracketed_of_closed {unread : List Char}
    (h : nested.unbounded (.after (before ++ ['(']) rest) t =
      some (.success ⟨v, .after read (')' :: unread), some a⟩, t)) :
    (bracketed nested).unbounded (.after before ('(' :: rest)) t =
      some (.success ⟨v.successor, .after (read ++ [')']) unread, some a⟩, t) := by
  have hwrap : (nested.wrap (leaf (.literal "(")) (leaf (.literal ")"))).unbounded
      (.after before ('(' :: rest)) t =
        some (.success ⟨v, .after (read ++ [')']) unread, some a⟩, t) := by
    have hclose : (leaf (.literal ")")).unbounded (.after read (')' :: unread)) t =
        some (.success ⟨.text ")", .after (read ++ [')']) unread, none⟩, t) :=
      unbounded_literal (s := ")")
    refine wrap_of_opening ?_
    rw [Parser.chain_of_success h (Parser.chain_of_success hclose rfl)]
    rfl
  rw [bracketed_eq]
  exact Parser.choice_of_success (Parser.map_of_outcome _ hwrap)

theorem deeper_missing (read : List Char) (tokens : List String) :
    Text.byteLength before < (missing (before ++ '(' :: read) tokens).position.index := by
  have hpos := Char.utf8Size_pos '('
  simp only [missing, Position.advancedOver_index, Position.start, Text.byteLength_append,
    Text.byteLength_cons]
  omega

/-- What the run within brackets says decides what the run around them says. -/
theorem bracketed_says (ho : Says (before ++ ['(']) rest o)
    (h : nested.unbounded (.after (before ++ ['(']) rest) t = some (o, t)) :
    ∃ o', Says before ('(' :: rest) o' ∧
      (bracketed nested).unbounded (.after before ('(' :: rest)) t = some (o', t) := by
  have hwider : ∀ read, before ++ ['('] ++ read = before ++ '(' :: read := by simp
  -- A failure within is handed on; a whole word within is left open or closed here.
  cases ho with
  | opening n rest hrest =>
    rw [hwider] at h
    exact ⟨_, .opening (n + 1) rest hrest, bracketed_of_failure (deeper_missing _ _) h⟩
  | closing n k rest hk hrest =>
    rw [hwider] at h
    exact ⟨_, .closing (n + 1) k rest (by omega) hrest,
      bracketed_of_failure (deeper_missing _ _) h⟩
  | whole n rest =>
    rw [hwider, hwider] at h
    by_cases hclose : ∃ unread, rest = ')' :: unread
    · obtain ⟨unread, rfl⟩ := hclose
      refine ⟨_, ?_, bracketed_of_closed h⟩
      simpa [word_succ, List.replicate_succ, Value.successor] using
        @Says.whole before (n + 1) unread
    · have hunclosed : ∀ c ∈ rest.head?, c ≠ ')' := by
        intro c hc hparen
        obtain ⟨unread, rfl⟩ := List.head?_eq_some_iff.mp hc
        exact hclose ⟨unread, hparen ▸ rfl⟩
      refine ⟨_, .closing (n + 1) n rest n.lt_succ_self hunclosed,
        bracketed_of_unclosed ?_ (deeper_missing _ [")"]) hunclosed h⟩
      simp [missing, Position.start, closing, List.replicate_succ, Char.utf8Size_pos]

theorem handle_says {slot : Nat} {label : String}
    (h : t.filled? slot = some (bracketed (.handle slot label))) (before text : List Char) :
    ∃ o, Says before text o ∧
      (Grammar.handle slot label).unbounded (.after before text) t = some (o, t) := by
  -- Each opening bracket goes over to what is read before the run within it.
  induction text generalizing before with
  | nil =>
    refine ⟨_, .opening 0 [] (by simp), ?_⟩
    rw [unbounded_handle h, bracketed_of_neither (by simp)]
    simp
  | cons c rest ih =>
    rw [unbounded_handle h]
    by_cases hopen : c = '('
    · obtain ⟨o, ho, hrun⟩ := ih (before ++ ['('])
      exact hopen ▸ bracketed_says ho hrun
    · by_cases hx : c = 'x'
      · subst hx
        refine ⟨_, ?_, bracketed_of_x⟩
        simpa [word, closing] using @Says.whole before 0 rest
      · have hneither : ∀ c' ∈ (c :: rest).head?, c' ≠ '(' ∧ c' ≠ 'x' := by
          rintro _ ⟨rfl⟩
          exact ⟨hopen, hx⟩
        refine ⟨_, .opening 0 (c :: rest) hneither, ?_⟩
        rw [bracketed_of_neither hneither]
        simp

end

/-- The labels listed for a text that goes with the words up to the end of `read`. -/
inductive Listed : List Char → List String → Prop
  | opening (n : Nat) : Listed (replicate n '(') ["'('", "'x'"]
  | closing {n k : Nat} (h : k < n) : Listed (closing n k) ["')'"]
  | whole (n : Nat) : Listed (word n) [Leaf.endLabel]

/-- The diagnostic points behind `read`, up to where `text` goes with the words. -/
structure Points (text read : List Char) (e : Diagnostic) : Prop where
  longest : Longest read text
  furthest : e.furthest = Position.start.advancedOver read
  index : e.furthest.index = read.length
  listed : Listed read e.expected
  canFollow : ∀ label, label ∈ e.expected ↔ CanFollow read label

section
variable {text read rest : List Char} {o : Outcome Value} {labels : Labels}

theorem Listed.canFollow_iff {labels : List String} (h : Listed read labels) (label : String) :
    label ∈ labels ↔ CanFollow read label := by
  cases h with
  | opening n => exact canFollow_opening_iff.symm
  | closing h => exact (canFollow_closing_iff h).symm
  | whole n => exact canFollow_word_iff.symm

theorem points_ofTrail (name : String) (h : Longest read text)
    (hlisted : Listed read labels.toList) :
    Points text read (.ofTrail name text ⟨Position.start.advancedOver read, labels⟩) where
  longest := h
  furthest := rfl
  index := by simp [Diagnostic.ofTrail, Position.start, h.begins.byteLength_eq]
  listed := hlisted
  canFollow := hlisted.canFollow_iff

/-- A word is answered by its number of brackets, any other text by a diagnostic that points. -/
def Answers (text : List Char) (r : Except Diagnostic Value) : Prop :=
  (∀ v, r = .ok v ↔ ∃ n : Nat, text = word n ∧ v = .number n) ∧
    ∀ e, r = .error e → ∃ read, Points text read e

theorem answers_error {e : Diagnostic} (hpoints : Points text read e)
    (h : ∀ n, text ≠ word n) : Answers text (.error e) := by
  refine ⟨fun v => ⟨nofun, ?_⟩, ?_⟩
  · rintro ⟨n, htext, -⟩
    exact absurd htext (h n)
  · rintro _ ⟨rfl⟩
    exact ⟨read, hpoints⟩

theorem answers_of_says (h : Says [] text o) : Answers text ((o.under {}).toExcept {} text) := by
  cases h with
  | opening n rest hrest =>
    have hlongest : Longest (replicate n '(') (replicate n '(' ++ rest) :=
      longest_of_stop (begins_opening n) fun c hc hbegins =>
        (begins_opening_iff.mp hbegins).elim (hrest c hc).1 (hrest c hc).2
    refine answers_error (points_ofTrail _ hlongest (.opening n)) ?_
    intro m hm
    exact opening_ne_word (hm ▸ hlongest).eq_word
  | closing n k rest hk hrest =>
    have hlongest : Longest (closing n k) (closing n k ++ rest) :=
      longest_of_stop (begins_closing hk.le) fun c hc hbegins =>
        hrest c hc (begins_closing_iff.mp hbegins).2
    refine answers_error (points_ofTrail _ hlongest (.closing hk)) ?_
    intro m hm
    have hnk := closing_eq_word_iff.mp (hm ▸ hlongest).eq_word
    omega
  | whole n rest =>
    cases rest with
    | nil =>
      refine ⟨fun v => ⟨?_, ?_⟩, nofun⟩
      · rintro ⟨rfl⟩
        exact ⟨n, List.append_nil _, rfl⟩
      · rintro ⟨m, hm, rfl⟩
        rw [List.append_nil] at hm
        obtain ⟨rfl, -⟩ := closing_eq_word_iff.mp hm
        rfl
    | cons c rest =>
      have hlongest : Longest (word n) (word n ++ c :: rest) :=
        longest_of_stop (begins_closing n.le_refl) fun c _ hbegins =>
          Nat.lt_irrefl n (begins_closing_iff.mp hbegins).1
      have hlater : Text.byteLength (replicate n '(') < Text.byteLength (word n) := by
        simp [word, closing, Char.utf8Size_pos]
      have hend : (missing ([] ++ replicate n '(') ["("]).merge
          (.failure (Position.start.advancedOver ([] ++ word n)) Leaf.endLabel) =
            ⟨Position.start.advancedOver (word n), .single Leaf.endLabel⟩ :=
        Trail.merge_of_lt (by simpa [missing, Trail.failure, Position.start] using hlater)
      have hjudged : ((Outcome.success (⟨.number n, .after ([] ++ word n) (c :: rest),
          some (missing ([] ++ replicate n '(') ["("])⟩ : Success Value)).under {}).toExcept {}
            (word n ++ c :: rest) = .error (.ofTrail "input" (word n ++ c :: rest)
              ⟨Position.start.advancedOver (word n), .single Leaf.endLabel⟩) := by
        rw [← hend]
        rfl
      rw [hjudged]
      refine answers_error (points_ofTrail _ hlongest (.whole n)) ?_
      intro m hm
      have hwhole := (hm ▸ hlongest).eq_word
      rw [← hwhole] at hm
      simp at hm

theorem handle_answers {slot : Nat} {label : String} {t : Store}
    (h : t.filled? slot = some (bracketed (.handle slot label))) (text : List Char) :
    ∃ r, Answers text r ∧ ∃ least, ∀ depth ≥ least,
      ((holding [slot] (handle slot label)).runWithin depth).tryParse {} text t = some (r, t) := by
  obtain ⟨o, hsays, hrun⟩ := handle_says h [] text
  refine ⟨_, answers_of_says hsays, ?_⟩
  rw [← unbounded_holding [slot], Cursor.after_nil] at hrun
  obtain ⟨least, hleast⟩ := unbounded_eq_some_iff.mp hrun
  exact ⟨least, fun _ hdepth => Parser.tryParse_of_outcome (runWithin_mono hdepth hleast)⟩

end

/-- Every text is answered, within some depth and every greater one. -/
theorem nesting_answers (label : String) (run : Grammar → Parser Engine Value) (store : Store) :
    ∃ g t, (nesting label .done).perform run store = some (.ok g, t) ∧
      ∀ text, ∃ r, Answers text r ∧
        ∃ least, ∀ depth ≥ least, (g.runWithin depth).tryParse {} text t = some (r, t) := by
  have hfilled : (Store.defined { store with slots := store.slots.push { state := .unfilled } }
      store.slots.size (bracketed (.handle store.slots.size label))).filled? store.slots.size =
        some (bracketed (.handle store.slots.size label)) := by
    rw [Store.filled?_eq_some_iff, Store.stateAt_defined, if_pos rfl, Store.stateAt_push,
      if_pos rfl]
    rfl
  refine ⟨_, _, Assembly.perform_define .., handle_answers hfilled⟩

end Brackets
end FurthestFailure
