import FurthestFailure.Proofs.Recognition
import FurthestFailure.Proofs.Termination.Onward

/-! # Grammars that may take nothing

A cautious count of the grammars that may succeed where they began, by their form alone and through
the rules that handles stand for. A grammar that is not among them takes something whenever it
succeeds.
-/
namespace FurthestFailure
set_option autoImplicit false

def Leaf.MatchesEmpty (l : Leaf) : Prop := ∃ c u, l.run c = .success u ∧ u.rest = c

theorem Leaf.not_matchesEmpty_literal {s : String} (hs : s ≠ "") :
    ¬ (Leaf.literal s).MatchesEmpty := by
  rintro ⟨c, u, hrun, hback⟩
  rw [Leaf.run, Leaf.literalAt] at hrun
  split at hrun
  · cases hrun
    have hindex := congrArg (fun d : Cursor => d.position.index) hback
    simp [Cursor.advance, Text.byteLength_eq_zero_iff, hs] at hindex
  · cases hrun

namespace Grammar

/-- The grammar may succeed without taking anything. -/
inductive Nullable (rules : Nat → Option Grammar) : Grammar → Prop
  | leaf {l : Leaf} (h : l.MatchesEmpty) : Nullable rules (.leaf l)
  | map {g : Grammar} {f : Value → Value} (h : Nullable rules g) : Nullable rules (.map g f)
  | sequence {gs : List Grammar} (h : ∀ g ∈ gs, Nullable rules g) : Nullable rules (.sequence gs)
  | choice {gs : List Grammar} {g : Grammar} (hg : g ∈ gs) (h : Nullable rules g) :
    Nullable rules (.choice gs)
  | many {g : Grammar} : Nullable rules (.many g)
  | times_zero {g : Grammar} : Nullable rules (.times g 0)
  | times {g : Grammar} {count : Nat} (h : Nullable rules g) : Nullable rules (.times g count)
  | separatedBy {item separator : Grammar} : Nullable rules (.separatedBy item separator)
  | separatedBy1 {item separator : Grammar} (h : Nullable rules item) :
    Nullable rules (.separatedBy1 item separator)
  | lookahead {g : Grammar} : Nullable rules (.lookahead g)
  | optional {g : Grammar} : Nullable rules (.optional g)
  | notFollowedBy {g : Grammar} : Nullable rules (.notFollowedBy g)
  | describe {g : Grammar} {label : String} (h : Nullable rules g) :
    Nullable rules (.describe g label)
  | mark {g : Grammar} (h : Nullable rules g) : Nullable rules (.mark g)
  | node {g : Grammar} {name : String} (h : Nullable rules g) : Nullable rules (.node g name)
  | handle {slot : Nat} {label : String} {g : Grammar} (hrule : rules slot = some g)
    (h : Nullable rules g) : Nullable rules (.handle slot label)
  | holding {slots : List Nat} {g : Grammar} (h : Nullable rules g) :
    Nullable rules (.holding slots g)

theorem not_nullable_literal {rules : Nat → Option Grammar} {s : String} (hs : s ≠ "") :
    ¬ (leaf (.literal s)).Nullable rules := by
  intro h
  cases h with
  | leaf h => exact Leaf.not_matchesEmpty_literal hs h

/-- No continuation, and no parser from outside the library. -/
def IsPlain : Grammar → Prop
  | leaf l => l.IsOwn
  | chain _ _ => False
  | _ => True

/-- Whenever the grammar succeeds, it has taken something. -/
def Consumes (store : Store) (g : Grammar) : Prop :=
  ∀ depth c u after, g.runWithin depth c store = some (.success u, after) →
    u.rest.position.index ≠ c.position.index

end Grammar

/-- If `x` ends, it leaves the store as it was; a success of `x` has gone on from `c`, or is at `c`
and then `still` holds. -/
def Moves {α : Type} (store : Store) (c : Cursor) (still : Prop) (x : Engine (Outcome α)) : Prop :=
  ∀ ⦃o after⦄, x store = some (o, after) →
    after = store ∧ ∀ u, o = .success u → c.Onward u.rest ∧ (u.rest = c → still)

namespace Moves
variable {α β : Type} {store : Store} {c d : Cursor} {still still' : Prop}

theorem failure {t : Trail} : Moves (α := α) store c still (pure (.failure t)) := by
  intro o after hx
  cases hx
  exact ⟨rfl, nofun⟩

theorem success {u : Success α} (hu : c.Onward u.rest) (h : u.rest = c → still) :
    Moves store c still (pure (.success u)) := by
  intro o after hx
  cases hx
  refine ⟨rfl, fun u' hu' => ?_⟩
  cases hu'
  exact ⟨hu, h⟩

theorem stay {v : α} {a : Option Trail} (h : still) :
    Moves store c still (pure (.success ⟨v, c, a⟩)) :=
  success (.refl c) fun _ => h

theorem unending : Moves (α := α) store c still FurthestFailure.unending := by
  intro o after hx
  cases hx

theorem mono {x : Engine (Outcome α)} (h : Moves store c still x) (hstill : still → still') :
    Moves store c still' x := by
  intro o after hx
  obtain ⟨hafter, ho⟩ := h hx
  exact ⟨hafter, fun u hu => ⟨(ho u hu).1, fun hback => hstill ((ho u hu).2 hback)⟩⟩

/-- What began further on can be back only if it never went on. -/
theorem further {x : Engine (Outcome α)} (h : Moves store d still x) (hcd : c.Onward d)
    (hstill : d = c → still → still') : Moves store c still' x := by
  intro o after hx
  obtain ⟨hafter, ho⟩ := h hx
  refine ⟨hafter, fun u hu => ?_⟩
  obtain ⟨honward, hback⟩ := ho u hu
  refine ⟨hcd.trans honward, fun hc => ?_⟩
  obtain ⟨hd, he⟩ := hcd.eq_of_back honward hc
  exact hstill hd (hback he)

theorem bind {x : Engine (Outcome α)} {f : Outcome α → Engine (Outcome β)}
    (h : Moves store c still x)
    (hsuccess : ∀ u, c.Onward u.rest → (u.rest = c → still) →
      Moves store c still' (f (.success u)))
    (hfailure : ∀ t, Moves store c still' (f (.failure t))) : Moves store c still' (x >>= f) := by
  intro o after hxf
  obtain ⟨⟨o', after'⟩, hx, hf⟩ := Option.bind_eq_some_iff.mp hxf
  obtain ⟨rfl, ho'⟩ := h hx
  cases o' with
  | success u => exact hsuccess u (ho' u rfl).1 (ho' u rfl).2 hf
  | failure t => exact hfailure t hf

end Moves

/-- Wherever it is run, the parser moves so. -/
def Parser.Moves {α : Type} (store : Store) (still : Prop) (p : Parser Engine α) : Prop :=
  ∀ c, FurthestFailure.Moves store c still (p c)

namespace Parser.Moves
variable {α β : Type} {store : Store} {still still' : Prop} {p : Parser Engine α}
variable {q : Parser Engine β}

theorem map (h : p.Moves store still) (f : α → β) : (p.map f).Moves store still := by
  intro c
  refine (h c).bind ?_ fun t => .failure
  intro u hu hstill
  exact .success hu hstill

theorem describe (h : p.Moves store still) (label : String) :
    (p.describe label).Moves store still := by
  intro c
  refine (h c).bind ?_ fun t => .failure
  intro u hu hstill
  exact .success hu hstill

theorem mark (h : p.Moves store still) : p.mark.Moves store still := by
  intro c
  refine (h c).bind ?_ fun t => .failure
  intro u hu hstill
  exact .success hu hstill

theorem lookahead (h : p.Moves store still) : p.lookahead.Moves store True := by
  intro c
  exact (h c).bind (fun u _ _ => .stay trivial) fun t => .failure

theorem optional (h : p.Moves store still) : p.optional.Moves store True := by
  intro c
  exact (h c).bind (fun u hu _ => .success hu fun _ => trivial) fun t => .stay trivial

theorem notFollowedBy (h : p.Moves store still) : p.notFollowedBy.Moves store True := by
  intro c
  exact (h c).bind (fun u _ _ => .failure) fun t => .stay trivial

variable {run : Grammar → Parser Engine α} {N : Grammar → Prop} {gs : List Grammar}

theorem sequenceFrom (h : ∀ g ∈ gs, (run g).Moves store (N g)) (values : List α)
    (trail : Option Trail) :
    (Parser.sequenceFrom (gs.map run) values trail).Moves store (∀ g ∈ gs, N g) := by
  induction gs generalizing values trail with
  | nil => exact fun c => .stay nofun
  | cons g gs ih =>
    obtain ⟨hg, hgs⟩ := List.forall_mem_cons.mp h
    intro c
    refine (hg c).bind ?_ fun t => .failure
    intro u hu hstill
    refine (ih hgs _ _ u.rest).further hu fun hback hall => ?_
    exact List.forall_mem_cons.mpr ⟨hstill hback, hall⟩

theorem choiceFrom (h : ∀ g ∈ gs, (run g).Moves store (N g)) (trail : Option Trail) :
    (Parser.choiceFrom (gs.map run) trail).Moves store (∃ g ∈ gs, N g) := by
  induction gs generalizing trail with
  | nil =>
    intro c
    cases trail with
    | none => exact .failure
    | some t => exact .failure
  | cons g gs ih =>
    obtain ⟨hg, hgs⟩ := List.forall_mem_cons.mp h
    intro c
    refine (hg c).bind ?_ fun t => ?_
    · intro u hu hstill
      exact .success hu fun hback => ⟨g, .head _, hstill hback⟩
    · refine (ih hgs _ c).mono ?_
      rintro ⟨k, hk, hstill⟩
      exact ⟨k, .tail _ hk, hstill⟩

theorem timesFrom (h : p.Moves store still) (count : Nat) (values : List α)
    (trail : Option Trail) :
    (p.timesFrom count values trail).Moves store (count = 0 ∨ still) := by
  induction count generalizing values trail with
  | zero => exact fun c => .stay (.inl rfl)
  | succ count ih =>
    intro c
    refine (h c).bind ?_ fun t => .failure
    intro u hu hstill
    exact (ih _ _ u.rest).further hu fun hback _ => .inr (hstill hback)

theorem manyFrom (h : p.Moves store still) (rounds : Nat) (values : List α) (trail : Option Trail) :
    Parser.Moves store True (p.manyFrom rounds values trail) := by
  intro c
  induction rounds, c using Parser.rounds_induction generalizing values trail with
  | round rounds c ih =>
    rw [Parser.manyFrom]
    refine (h c).bind ?_ fun t => .stay trivial
    intro u hu _
    by_cases hi : u.rest.position.index = c.position.index
    · simp only [if_pos hi]
      exact .stay trivial
    · simp only [if_neg hi]
      by_cases hl : u.rest.rest.length < c.rest.length ∨ 0 < rounds
      · simp only [dif_pos hl]
        exact (ih _ hl _ _).further hu fun _ _ => trivial
      · simp only [dif_neg hl]
        exact .unending

theorem separatedFrom (h : p.Moves store still) (hq : q.Moves store still') (rounds : Nat)
    (values : List α) (trail : Option Trail) :
    Parser.Moves store True (Parser.separatedFrom p q rounds values trail) := by
  intro c
  induction rounds, c using Parser.rounds_induction generalizing values trail with
  | round rounds c ih =>
    rw [Parser.separatedFrom]
    refine (hq c).bind ?_ fun t => .stay trivial
    intro between hbetween _
    suffices hround : FurthestFailure.Moves store between.rest True _ from
      hround.further hbetween fun _ _ => trivial
    refine (h between.rest).bind ?_ fun t => .failure
    intro u hu _
    by_cases hl : u.rest.rest.length < c.rest.length ∨ 0 < rounds
    · simp only [dif_pos hl]
      exact (ih _ hl _ _).further hu fun _ _ => trivial
    · simp only [dif_neg hl]
      exact .unending

theorem separatedBy (h : p.Moves store still) (hq : q.Moves store still') :
    (p.separatedBy q).Moves store True := by
  intro c
  refine (h c).bind ?_ fun t => .stay trivial
  intro u hu _
  exact (separatedFrom h hq _ _ _ u.rest).further hu fun _ _ => trivial

theorem separatedBy1 (h : p.Moves store still) (hq : q.Moves store still') :
    (p.separatedBy1 q).Moves store still := by
  intro c
  refine (h c).bind ?_ fun t => .failure
  intro u hu hstill
  exact (separatedFrom h hq _ _ _ u.rest).further hu fun hback _ => hstill hback

theorem handle {run : Grammar → Parser Engine Value} {slot : Nat} {label : String}
    {enter : Engine (Option Grammar)} (henter : enter store = some (store.filled? slot, store))
    (hrun : ∀ g, store.filled? slot = some g → (run g).Moves store (g.Nullable store.filled?)) :
    Parser.Moves store ((Grammar.handle slot label).Nullable store.filled?) fun c => do
      match ← enter with
      | some g => run g c
      | none => return c.fail label := by
  intro c o after hx
  obtain ⟨⟨found, store'⟩, hentered, hx⟩ := Option.bind_eq_some_iff.mp hx
  rw [henter] at hentered
  cases hentered
  cases hrule : store.filled? slot with
  | none =>
    rw [hrule] at hx
    exact FurthestFailure.Moves.failure hx
  | some g =>
    rw [hrule] at hx
    exact (hrun g hrule c).mono (fun hnull => .handle hrule hnull) hx

end Parser.Moves

namespace Grammar
variable {store : Store}

theorem moves_leaf {l : Leaf} (hl : l.IsOwn) {rules : Nat → Option Grammar} :
    Parser.Moves store (Nullable rules (.leaf l)) fun c => pure (l.run c) := by
  intro c
  change FurthestFailure.Moves store c _ (pure (l.run c))
  cases hrun : l.run c with
  | failure t => exact .failure
  | success u =>
    refine .success (Leaf.onward hl hrun) fun hback => ?_
    exact .leaf ⟨c, u, hrun, hback⟩

/-- A plain grammar never goes back, and stays where it is only if it may take nothing. -/
theorem moves_runWithin (hs : store.Everywhere IsPlain) (hbuilt : store.IsBuilt) {g : Grammar}
    (hg : g.Everywhere IsPlain) (depth : Nat) :
    (g.runWithin depth).Moves store (g.Nullable store.filled?) := by
  induction depth generalizing g with
  | zero => exact fun _ => .unending
  | succ depth ih =>
    have hparts : ∀ p ∈ g.parts, (p.runWithin depth).Moves store (p.Nullable store.filled?) :=
      fun p hp => ih (hg.part hp)
    rw [runWithin]
    cases g with
    | leaf l => exact moves_leaf hg
    | map g f => exact fun c => ((hparts g (.head _)).map f c).mono .map
    | chain g next => exact hg.1.elim
    | sequence gs =>
      exact fun c => ((Parser.Moves.sequenceFrom hparts [] none).map _ c).mono .sequence
    | choice gs =>
      intro c
      refine (Parser.Moves.choiceFrom hparts none c).mono ?_
      rintro ⟨g, hg, hnull⟩
      exact .choice hg hnull
    | many g => exact fun c => (((hparts g (.head _)).manyFrom _ [] none).map _ c).mono fun _ => .many
    | times g count =>
      intro c
      refine (((hparts g (.head _)).timesFrom count [] none).map _ c).mono ?_
      rintro (rfl | hnull)
      · exact .times_zero
      · exact .times hnull
    | separatedBy g h =>
      have hboth := (hparts g (.head _)).separatedBy (hparts h (.tail _ (.head _)))
      exact fun c => (hboth.map _ c).mono fun _ => .separatedBy
    | separatedBy1 g h =>
      have hboth := (hparts g (.head _)).separatedBy1 (hparts h (.tail _ (.head _)))
      exact fun c => (hboth.map _ c).mono .separatedBy1
    | lookahead g => exact fun c => ((hparts g (.head _)).lookahead c).mono fun _ => .lookahead
    | optional g => exact fun c => ((hparts g (.head _)).optional.map _ c).mono fun _ => .optional
    | notFollowedBy g =>
      exact fun c => ((hparts g (.head _)).notFollowedBy.map _ c).mono fun _ => .notFollowedBy
    | describe g label => exact fun c => ((hparts g (.head _)).describe label c).mono .describe
    | mark g => exact fun c => ((hparts g (.head _)).mark.map _ c).mono .mark
    | node g name => exact fun c => (((hparts g (.head _)).mark.map _).map _ c).mono .node
    | handle slot label =>
      refine Parser.Moves.handle (Store.enter_of_not_deferred (hbuilt slot)) fun g hrule => ?_
      exact ih (hs.filled hrule)
    | holding slots g => exact fun c => (hparts g (.head _) c).mono .holding

/-- A grammar that cannot be counted among those that may take nothing always takes something. -/
theorem consumes_of_not_nullable (hs : store.Everywhere IsPlain) (hbuilt : store.IsBuilt)
    {g : Grammar} (hg : g.Everywhere IsPlain) (h : ¬ g.Nullable store.filled?) :
    g.Consumes store := by
  intro depth c u after hrun hindex
  obtain ⟨honward, hstill⟩ := (moves_runWithin hs hbuilt hg depth c hrun).2 u rfl
  exact h (hstill (honward.index_eq_iff.mp hindex))

end Grammar
end FurthestFailure
