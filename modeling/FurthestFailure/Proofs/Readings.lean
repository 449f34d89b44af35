import FurthestFailure.Proofs.Recognition
import Mathlib.Logic.Relation

/-! # What a success is made of

A run that succeeds goes from one cursor to another and yields a value. Unless it picks a parser by
a value or builds a slot, it leaves the store as it was and is made of runs of the parts, or of what
a handle stands for, that succeed too. Attempts that fail leave no trace in the value and in the
cursor, nor does the last round of a repetition if it took nothing. So what is to hold of a value
and of the two cursors can be proved from the parts to the whole.
-/
namespace FurthestFailure
set_option autoImplicit false

namespace Cursor

/-- Advancing over `matched`, which is unread at `c`, leads to `d`. -/
structure Past (c : Cursor) (matched : List Char) (d : Cursor) : Prop where
  rest_eq : c.rest = matched ++ d.rest
  eq_advance : d = c.advance matched

namespace Past
variable {c d e : Cursor} {a b text : List Char}

theorem nil (c : Cursor) : c.Past [] c := ⟨rfl, (advance_nil c).symm⟩

theorem of_front (h : a <+: c.rest) : c.Past a (c.advance a) := by
  obtain ⟨rest, hrest⟩ := h
  exact ⟨by rw [advance_rest_of_append hrest.symm, hrest], rfl⟩

theorem append (h : c.Past a d) (h' : d.Past b e) : c.Past (a ++ b) e := by
  have hrest : c.rest = (a ++ b) ++ e.rest := by
    rw [h.rest_eq, h'.rest_eq, List.append_assoc]
  have hunread : e.rest = (c.advance (a ++ b)).rest := (advance_rest_of_append hrest).symm
  obtain ⟨-, rfl⟩ := h
  obtain ⟨-, rfl⟩ := h'
  refine ⟨hrest, ?_⟩
  rw [Cursor.mk.injEq]
  exact ⟨rfl, (Position.advancedOver_append _ a b).symm, hunread⟩

theorem index_eq (h : c.Past a d) : d.position.index = c.position.index + Text.byteLength a := by
  rw [h.eq_advance, index_advance]

theorem index_le (h : c.Past a d) : c.position.index ≤ d.position.index :=
  h.index_eq ▸ Nat.le_add_right _ _

theorem reached (h : c.Past a d) (hc : c.Reached text) : d.Reached text := by
  rw [h.eq_advance]
  exact .advance hc ⟨d.rest, h.rest_eq.symm⟩

/-- What was advanced over is the text between the two cursors. -/
theorem slice_eq (h : c.Past a d) (hc : c.Reached text) :
    Text.takeBytes (d.position.index - c.position.index)
      (Text.dropBytes c.position.index text) = a := by
  rw [hc.dropBytes_eq, h.index_eq, Nat.add_sub_cancel_left, h.rest_eq,
    Text.takeBytes_byteLength_append]

end Past
end Cursor

namespace Leaf
variable {l : Leaf}

theorem exists_reading (hl : l.IsLibrary) {c : Cursor} {s : Success Value}
    (h : l.run c = .success s) :
    ∃ matched, l.reading? c.position c.rest = some (matched, s.value) ∧ c.Past matched s.rest := by
  rw [run_eq hl] at h
  rcases hr : l.reading? c.position c.rest with _ | ⟨matched, v⟩
  · rw [hr] at h
    cases h
  · rw [hr] at h
    cases h
    have hprefix := reading?_prefix hl hr
    exact ⟨matched, rfl, .of_front hprefix⟩

theorem readChar_value {accepts : Char → Bool} {unread matched : List Char} {v : Value}
    (h : readChar accepts unread = some (matched, v)) : v = .ofChars matched := by
  cases unread with
  | nil => cases h
  | cons x rest =>
    rw [readChar] at h
    split at h <;> cases h
    rfl

/-- But for the value that `succeed` puts in, leaves yield nothing, the place, or a text, which is
what they take unless it is that of a group. -/
theorem reading?_value (hl : ∀ v, l ≠ succeed v) {place : Position} {unread matched : List Char}
    {v : Value} (h : l.reading? place unread = some (matched, v)) :
    (v = .null ∧ matched = []) ∨ (l = position ∧ v = .position place) ∨
      ∃ cs, v = .ofChars cs ∧ ((∀ p group, l = pattern p group → group = 0) → cs = matched) := by
  cases l with
  | custom | fail => cases h
  | succeed v => exact absurd rfl (hl v)
  | position =>
    cases h
    exact .inr (.inl ⟨rfl, rfl⟩)
  | endOfInput =>
    rw [reading?] at h
    split at h <;> cases h
    exact .inl ⟨rfl, rfl⟩
  | literal s =>
    rw [reading?] at h
    split at h <;> cases h
    exact .inr (.inr ⟨s.toList, congrArg Value.text String.ofList_toList.symm, fun _ => rfl⟩)
  | pattern p group =>
    obtain ⟨f, -, hf⟩ := Option.map_eq_some_iff.mp h
    cases hf
    refine .inr (.inr ⟨f.group group, rfl, fun hwhole => ?_⟩)
    rw [hwhole p group rfl]
    rfl
  | anyChar | oneOf | noneOf => exact .inr (.inr ⟨matched, readChar_value h, fun _ => rfl⟩)
  | whitespace =>
    simp only [reading?] at h
    split at h <;> cases h
    exact .inr (.inr ⟨_, rfl, fun _ => rfl⟩)
  | optionalWhitespace | take | takeWhile =>
    cases h
    exact .inr (.inr ⟨_, rfl, fun _ => rfl⟩)

end Leaf

/-- If `x` ends, it leaves the store as it was; of a success the value and the rest are in `Q`. -/
def Gives {α : Type} (store : Store) (Q : α → Cursor → Prop) (x : Engine (Outcome α)) : Prop :=
  ∀ ⦃o final⦄, x store = some (o, final) →
    final = store ∧ ∀ s, o = .success s → Q s.value s.rest

namespace Gives
variable {α β : Type} {store : Store} {Q Q' : α → Cursor → Prop} {R : β → Cursor → Prop}

theorem failure {t : Trail} : Gives store Q (pure (.failure t)) := by
  intro o final hx
  cases hx
  exact ⟨rfl, nofun⟩

theorem success {s : Success α} (h : Q s.value s.rest) : Gives store Q (pure (.success s)) := by
  intro o final hx
  cases hx
  refine ⟨rfl, ?_⟩
  rintro _ ⟨⟩
  exact h

theorem unending : Gives store Q FurthestFailure.unending := by
  intro o final hx
  cases hx

theorem mono {x : Engine (Outcome α)} (h : Gives store Q x) (hQ : ∀ v d, Q v d → Q' v d) :
    Gives store Q' x := by
  intro o final hx
  obtain ⟨hfinal, hs⟩ := h hx
  exact ⟨hfinal, fun s ho => hQ _ _ (hs s ho)⟩

theorem bind {x : Engine (Outcome α)} {f : Outcome α → Engine (Outcome β)} (h : Gives store Q x)
    (hsuccess : ∀ s, Q s.value s.rest → Gives store R (f (.success s)))
    (hfailure : ∀ t, Gives store R (f (.failure t))) : Gives store R (x >>= f) := by
  intro o final hxf
  obtain ⟨⟨o', final'⟩, hx, hf⟩ := Option.bind_eq_some_iff.mp hxf
  obtain ⟨rfl, hs⟩ := h hx
  cases o' with
  | success s => exact hsuccess s (hs s rfl) hf
  | failure t => exact hfailure t hf

theorem map {x : Engine (Outcome α)} (h : Gives store Q x) (f : α → β)
    (hR : ∀ v d, Q v d → R (f v) d) : Gives store R (do return (← x).map f) :=
  h.bind (fun _ hs => success (hR _ _ hs)) fun _ => failure

end Gives

/-- Grammars read one after the other, with a value of each of them. -/
inductive Passage (R : Grammar → Cursor → Value → Cursor → Prop) :
    List Grammar → Cursor → List Value → Cursor → Prop
  | nil {c : Cursor} : Passage R [] c [] c
  | cons {g : Grammar} {gs : List Grammar} {c d e : Cursor} {v : Value} {vs : List Value}
    (h : R g c v d) (hs : Passage R gs d vs e) : Passage R (g :: gs) c (v :: vs) e

/-- Items read each behind a separator, with the values of the items. -/
inductive Rounds (R : Grammar → Cursor → Value → Cursor → Prop) (item separator : Grammar) :
    Cursor → List Value → Cursor → Prop
  | nil {c : Cursor} : Rounds R item separator c [] c
  | cons {c between d e : Cursor} {u v : Value} {vs : List Value} (hsep : R separator c u between)
    (h : R item between v d) (hs : Rounds R item separator d vs e) :
    Rounds R item separator c (v :: vs) e

namespace Grammar

/-- The second grammar is a part of the first one, or is what the first one stands for. -/
inductive Leads (store : Store) : Grammar → Grammar → Prop
  | part {g p : Grammar} (h : p ∈ g.parts) : Leads store g p
  | slot {slot : Nat} {label : String} {g : Grammar} (h : store.filled? slot = some g) :
    Leads store (.handle slot label) g

/-- What may be run in a run of the grammar. -/
abbrev Reaches (store : Store) : Grammar → Grammar → Prop := Relation.ReflTransGen (Leads store)

/-- How a grammar gets from one cursor to another and what value it yields, where `R` says this of
its parts. -/
inductive Composes (R : Grammar → Cursor → Value → Cursor → Prop) (store : Store) :
    Grammar → Cursor → Value → Cursor → Prop
  | leaf {l : Leaf} {c : Cursor} {s : Success Value} (h : l.run c = .success s) :
    Composes R store (.leaf l) c s.value s.rest
  | map {g : Grammar} {f : Value → Value} {c d : Cursor} {v : Value} (h : R g c v d) :
    Composes R store (.map g f) c (f v) d
  | sequence {gs : List Grammar} {c d : Cursor} {vs : List Value} (h : Passage R gs c vs d) :
    Composes R store (.sequence gs) c (.list vs) d
  | choice {gs : List Grammar} {g : Grammar} {c d : Cursor} {v : Value} (hg : g ∈ gs)
    (h : R g c v d) : Composes R store (.choice gs) c v d
  | many {g : Grammar} {count : Nat} {c d : Cursor} {vs : List Value}
    (h : Passage R (List.replicate count g) c vs d) : Composes R store (.many g) c (.list vs) d
  | times {g : Grammar} {count : Nat} {c d : Cursor} {vs : List Value}
    (h : Passage R (List.replicate count g) c vs d) :
    Composes R store (.times g count) c (.list vs) d
  | separatedBy_none {item separator : Grammar} {c : Cursor} :
    Composes R store (.separatedBy item separator) c (.list []) c
  | separatedBy {item separator : Grammar} {c d e : Cursor} {v : Value} {vs : List Value}
    (h : R item c v d) (hs : Rounds R item separator d vs e) :
    Composes R store (.separatedBy item separator) c (.list (v :: vs)) e
  | separatedBy1 {item separator : Grammar} {c d e : Cursor} {v : Value} {vs : List Value}
    (h : R item c v d) (hs : Rounds R item separator d vs e) :
    Composes R store (.separatedBy1 item separator) c (.list (v :: vs)) e
  | lookahead {g : Grammar} {c d : Cursor} {v : Value} (h : R g c v d) :
    Composes R store (.lookahead g) c v c
  | optional_none {g : Grammar} {c : Cursor} : Composes R store (.optional g) c .null c
  | optional {g : Grammar} {c d : Cursor} {v : Value} (h : R g c v d) :
    Composes R store (.optional g) c (.present v) d
  | notFollowedBy {g : Grammar} {c : Cursor} : Composes R store (.notFollowedBy g) c .null c
  | describe {g : Grammar} {label : String} {c d : Cursor} {v : Value} (h : R g c v d) :
    Composes R store (.describe g label) c v d
  | mark {g : Grammar} {c d : Cursor} {v : Value} (h : R g c v d) :
    Composes R store (.mark g) c (.marked v ⟨c.position, d.position⟩) d
  | node {g : Grammar} {name : String} {c d : Cursor} {v : Value} (h : R g c v d) :
    Composes R store (.node g name) c (.named v name ⟨c.position, d.position⟩) d
  | handle {slot : Nat} {label : String} {g : Grammar} {c d : Cursor} {v : Value}
    (hslot : store.filled? slot = some g) (h : R g c v d) :
    Composes R store (.handle slot label) c v d
  | holding {slots : List Nat} {g : Grammar} {c d : Cursor} {v : Value} (h : R g c v d) :
    Composes R store (.holding slots g) c v d

/-- Not a continuation, nor a handle of a slot that is yet to be built. -/
def IsSteady (store : Store) : Grammar → Prop
  | .chain _ _ => False
  | .handle slot _ => ∀ build, store.stateAt slot ≠ some (.deferred build)
  | _ => True

/-- A run of the grammar from the first cursor that succeeds at the second one. -/
def Reads (g : Grammar) (store : Store) (depth : Nat) (c : Cursor) (v : Value) (d : Cursor) :
    Prop :=
  ∃ a, g.runWithin depth c store = some (.success ⟨v, d, a⟩, store)

end Grammar

namespace Parser.Gives
variable {store : Store} {R : Grammar → Cursor → Value → Cursor → Prop} {gs : List Grammar}
variable {run : Grammar → Parser Engine Value}

theorem sequenceFrom (h : ∀ g ∈ gs, ∀ c, Gives store (R g c) (run g c)) (values : List Value)
    (trail : Option Trail) (c : Cursor) :
    Gives store (fun vs d => ∃ ws, vs = values.reverse ++ ws ∧ Passage R gs c ws d)
      (Parser.sequenceFrom (gs.map run) values trail c) := by
  induction gs generalizing values trail c with
  | nil => exact .success ⟨[], (List.append_nil _).symm, .nil⟩
  | cons g gs ih =>
    obtain ⟨hg, hgs⟩ := List.forall_mem_cons.mp h
    refine (hg c).bind (fun s hs => ?_) fun t => .failure
    refine (ih hgs _ _ s.rest).mono ?_
    rintro _ d ⟨ws, rfl, hws⟩
    exact ⟨s.value :: ws, by simp, .cons hs hws⟩

theorem choiceFrom (h : ∀ g ∈ gs, ∀ c, Gives store (R g c) (run g c)) (trail : Option Trail)
    (c : Cursor) : Gives store (fun v d => ∃ g ∈ gs, R g c v d)
      (Parser.choiceFrom (gs.map run) trail c) := by
  induction gs generalizing trail with
  | nil =>
    cases trail with
    | none => exact .failure
    | some t => exact .failure
  | cons g gs ih =>
    obtain ⟨hg, hgs⟩ := List.forall_mem_cons.mp h
    refine (hg c).bind (fun s hs => .success ⟨g, .head _, hs⟩) fun t => ?_
    refine (ih hgs _).mono ?_
    rintro v d ⟨k, hk, hv⟩
    exact ⟨k, .tail _ hk, hv⟩

variable {g item separator : Grammar}

theorem timesFrom (h : ∀ c, Gives store (R g c) (run g c)) (count : Nat) (values : List Value)
    (trail : Option Trail) (c : Cursor) :
    Gives store
      (fun vs d => ∃ ws, vs = values.reverse ++ ws ∧ Passage R (List.replicate count g) c ws d)
      ((run g).timesFrom count values trail c) := by
  rw [timesFrom_eq_sequenceFrom, ← List.map_replicate]
  exact sequenceFrom (fun k hk => List.eq_of_mem_replicate hk ▸ h) values trail c

theorem manyFrom (h : ∀ c, Gives store (R g c) (run g c)) (rounds : Nat) (values : List Value)
    (trail : Option Trail) (c : Cursor) :
    Gives store
      (fun vs d => ∃ ws count, vs = values.reverse ++ ws ∧
        Passage R (List.replicate count g) c ws d)
      ((run g).manyFrom rounds values trail c) := by
  induction rounds, c using Parser.rounds_induction generalizing values trail with
  | round rounds c ih =>
    have hend : ∃ ws count, values.reverse = values.reverse ++ ws ∧
        Passage R (List.replicate count g) c ws c := ⟨[], 0, (List.append_nil _).symm, .nil⟩
    rw [Parser.manyFrom]
    refine (h c).bind (fun s hs => ?_) fun t => .success hend
    by_cases hi : s.rest.position.index = c.position.index
    · -- What the round yields is dropped, and the place where it stopped is left for `c`.
      simp only [if_pos hi]
      exact .success hend
    · simp only [if_neg hi]
      by_cases hl : s.rest.rest.length < c.rest.length ∨ 0 < rounds
      · simp only [dif_pos hl]
        refine (ih _ hl _ _).mono ?_
        rintro _ d ⟨ws, count, rfl, hws⟩
        exact ⟨s.value :: ws, count + 1, by simp, .cons hs hws⟩
      · simp only [dif_neg hl]
        exact .unending

theorem separatedFrom (h : ∀ c, Gives store (R item c) (run item c))
    (hsep : ∀ c, Gives store (R separator c) (run separator c)) (rounds : Nat) (values : List Value)
    (trail : Option Trail) (c : Cursor) :
    Gives store (fun vs d => ∃ ws, vs = values.reverse ++ ws ∧ Rounds R item separator c ws d)
      (Parser.separatedFrom (run item) (run separator) rounds values trail c) := by
  induction rounds, c using Parser.rounds_induction generalizing values trail with
  | round rounds c ih =>
    rw [Parser.separatedFrom]
    refine (hsep c).bind (fun between hbetween => ?_) fun t =>
      .success ⟨[], (List.append_nil _).symm, .nil⟩
    refine (h between.rest).bind (fun s hs => ?_) fun t => .failure
    by_cases hl : s.rest.rest.length < c.rest.length ∨ 0 < rounds
    · simp only [dif_pos hl]
      refine (ih _ hl _ _).mono ?_
      rintro _ d ⟨ws, rfl, hws⟩
      exact ⟨s.value :: ws, by simp, .cons hbetween hs hws⟩
    · simp only [dif_neg hl]
      exact .unending

theorem separated (h : ∀ c, Gives store (R item c) (run item c))
    (hsep : ∀ c, Gives store (R separator c) (run separator c)) (rounds : Nat) {c : Cursor}
    {s : Success Value} (hs : R item c s.value s.rest) :
    Gives store
      (fun vs e => ∃ v d ws, vs = v :: ws ∧ R item c v d ∧ Rounds R item separator d ws e)
      (Parser.separatedFrom (run item) (run separator) rounds [s.value] s.furthest s.rest) := by
  refine (separatedFrom h hsep _ _ _ _).mono ?_
  rintro _ e ⟨ws, rfl, hws⟩
  exact ⟨s.value, s.rest, ws, rfl, hs, hws⟩

end Parser.Gives

namespace Grammar
variable {store : Store} {R : Grammar → Cursor → Value → Cursor → Prop}

/-- If the parts yield what `R` says, the grammar yields what they compose. -/
theorem parser_gives {g : Grammar} (hg : g.IsSteady store)
    {run run' : Grammar → Parser Engine Value} {perform : Assembly → Engine Grammar}
    (hrun : ∀ k, Leads store g k → ∀ c, Gives store (R k c) (run k c)) (c : Cursor) :
    Gives store (Composes R store g c) (g.parser run (Store.enter run') perform c) := by
  have hparts : ∀ p ∈ g.parts, ∀ c, Gives store (R p c) (run p c) :=
    fun p hp => hrun p (.part hp)
  cases g with
  | chain => exact hg.elim
  | leaf l =>
    rintro o final ⟨⟩
    exact ⟨rfl, fun s hs => .leaf hs⟩
  | map g f => exact (hparts g (.head _) c).map f fun _ _ => .map
  | sequence gs =>
    refine (Parser.Gives.sequenceFrom hparts [] none c).map _ ?_
    rintro _ d ⟨ws, rfl, hws⟩
    exact .sequence hws
  | choice gs =>
    refine (Parser.Gives.choiceFrom hparts none c).mono ?_
    rintro v d ⟨k, hk, hv⟩
    exact .choice hk hv
  | many g =>
    refine (Parser.Gives.manyFrom (hparts g (.head _)) _ [] none c).map _ ?_
    rintro _ d ⟨ws, count, rfl, hws⟩
    exact .many hws
  | times g count =>
    refine (Parser.Gives.timesFrom (hparts g (.head _)) count [] none c).map _ ?_
    rintro _ d ⟨ws, rfl, hws⟩
    exact .times hws
  | separatedBy item separator =>
    have hitem := hparts item (.head _)
    have hsep := hparts separator (.tail _ (.head _))
    have hlist : Gives store
        (fun vs e => vs = [] ∧ e = c ∨
          ∃ v d ws, vs = v :: ws ∧ R item c v d ∧ Rounds R item separator d ws e)
        ((run item).separatedBy (run separator) c) := by
      refine (hitem c).bind (fun s hs => ?_) fun t => .success (.inl ⟨rfl, rfl⟩)
      exact (Parser.Gives.separated hitem hsep _ hs).mono fun _ _ => .inr
    refine hlist.map _ ?_
    rintro _ e (⟨rfl, rfl⟩ | ⟨v, d, ws, rfl, hv, hws⟩)
    · exact .separatedBy_none
    · exact .separatedBy hv hws
  | separatedBy1 item separator =>
    have hitem := hparts item (.head _)
    have hsep := hparts separator (.tail _ (.head _))
    have hlist : Gives store
        (fun vs e => ∃ v d ws, vs = v :: ws ∧ R item c v d ∧ Rounds R item separator d ws e)
        ((run item).separatedBy1 (run separator) c) :=
      (hitem c).bind (fun s hs => Parser.Gives.separated hitem hsep _ hs) fun t => .failure
    refine hlist.map _ ?_
    rintro _ e ⟨v, d, ws, rfl, hv, hws⟩
    exact .separatedBy1 hv hws
  | lookahead g =>
    exact (hparts g (.head _) c).bind (fun s hs => .success (.lookahead hs)) fun t => .failure
  | optional g =>
    have hoption : Gives store (fun v d => Composes R store (.optional g) c (.ofOption v) d)
        ((run g).optional c) :=
      (hparts g (.head _) c).bind (fun s hs => .success (.optional hs)) fun t =>
        .success .optional_none
    exact hoption.map _ fun _ _ h => h
  | notFollowedBy g =>
    have hunit : Gives store (fun _ d => Composes R store (.notFollowedBy g) c .null d)
        ((run g).notFollowedBy c) :=
      (hparts g (.head _) c).bind (fun s _ => .failure) fun t => .success .notFollowedBy
    exact hunit.map _ fun _ _ h => h
  | describe g label =>
    exact (hparts g (.head _) c).bind (fun s hs => .success (.describe hs)) fun t => .failure
  | mark g =>
    have hmark : Gives store (fun m d => Composes R store (.mark g) c (.ofMarker m) d)
        ((run g).mark c) :=
      (hparts g (.head _) c).bind (fun s hs => .success (.mark hs)) fun t => .failure
    exact hmark.map _ fun _ _ h => h
  | node g name =>
    have hmark : Gives store
        (fun m d => Composes R store (.node g name) c (.ofNamedMarker (m.named name)) d)
        ((run g).mark c) :=
      (hparts g (.head _) c).bind (fun s hs => .success (.node hs)) fun t => .failure
    exact (hmark.map (R := fun m d => Composes R store (.node g name) c (.ofNamedMarker m) d) _
      fun _ _ h => h).map _ fun _ _ h => h
  | handle slot label =>
    intro o final hx
    obtain ⟨⟨found, store'⟩, hentered, hx⟩ := Option.bind_eq_some_iff.mp hx
    rw [Store.enter_of_not_deferred hg] at hentered
    cases hentered
    cases hslot : store.filled? slot with
    | none =>
      rw [hslot] at hx
      exact FurthestFailure.Gives.failure hx
    | some k =>
      rw [hslot] at hx
      exact ((hrun k (.slot hslot) c).mono fun _ _ => .handle hslot) hx
  | holding slots g => exact (hparts g (.head _) c).mono fun _ _ => .holding

variable {g : Grammar}

/-- What holds of each value that grammars compose of values for which it holds, holds of the value
of a run. -/
theorem runWithin_gives {P : Grammar → Cursor → Value → Cursor → Prop}
    (hg : ∀ k, g.Reaches store k → k.IsSteady store)
    (hstep : ∀ depth k c v d, g.Reaches store k →
      Composes (fun k c v d => k.Reads store depth c v d ∧ P k c v d) store k c v d → P k c v d)
    (depth : Nat) (c : Cursor) :
    Gives store (fun v d => g.Reads store depth c v d ∧ P g c v d) (g.runWithin depth c) := by
  -- On the depth: what a handle stands for is no part of it, but it is run less deep.
  induction depth generalizing g c with
  | zero => exact .unending
  | succ depth ih =>
    intro o final hrun
    have hled : ∀ k, Leads store g k → ∀ c, Gives store
        (fun v d => k.Reads store depth c v d ∧ P k c v d) (k.runWithin depth c) := by
      intro k hk c
      refine ih (fun k' hk' => hg k' (.head hk hk')) ?_ c
      intro n k' c v d hk'
      exact hstep n k' c v d (.head hk hk')
    obtain ⟨rfl, hcomposed⟩ := parser_gives (hg g .refl) hled c hrun
    refine ⟨rfl, ?_⟩
    rintro s rfl
    exact ⟨⟨s.furthest, hrun⟩, hstep depth g c _ _ .refl (hcomposed s rfl)⟩

/-- A property of all forms in the grammar and in the store is one of all that may be run. -/
theorem Everywhere.of_reaches {P : Grammar → Prop} (hg : g.Everywhere P) (hs : store.Everywhere P)
    {k : Grammar} (h : g.Reaches store k) : k.Everywhere P := by
  induction h with
  | refl => exact hg
  | tail _ hled ih =>
    cases hled with
    | part hp => exact ih.part hp
    | slot hslot => exact hs.filled hslot

theorem Reads.composes (hg : ∀ k, g.Reaches store k → k.IsSteady store) {depth : Nat}
    {c d : Cursor} {v : Value} (h : g.Reads store depth c v d) :
    ∃ lower, Composes (fun k => k.Reads store lower) store g c v d := by
  obtain ⟨a, h⟩ := h
  cases depth with
  | zero => cases h
  | succ depth =>
    refine ⟨depth, (parser_gives (hg g .refl) (fun k hk c => ?_) c h).2 _ rfl⟩
    have hk : ∀ k', k.Reaches store k' → k'.IsSteady store := fun k' hk' => hg k' (.head hk hk')
    exact (runWithin_gives hk (P := fun _ _ _ _ => True) (fun _ _ _ _ _ _ _ => trivial) depth
      c).mono fun _ _ => And.left

end Grammar
end FurthestFailure
