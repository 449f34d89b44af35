import FurthestFailure.Proofs.Depth
import Mathlib.Order.Filter.AtTopBot.Basic

/-! # Runs without a bound on their depth

A run that ends needs some depth, and ends alike within every greater one. So there is one run
without a bound, and it is a solution of the equations that the combinators make: a finite run asks
its parts for finitely many finite runs, and some depth is enough for all of them.
-/
namespace FurthestFailure
set_option autoImplicit false

open Filter

/-- What `x` ends with, all but finitely many of the runs `y n` end with. -/
def Tends {α : Type} (x : Engine α) (y : Nat → Engine α) : Prop :=
  ∀ ⦃s r⦄, x s = some r → ∀ᶠ n in atTop, y n s = some r

namespace Tends
variable {α β : Type}

theorem const (x : Engine α) : Tends x fun _ => x :=
  fun _ _ h => Eventually.of_forall fun _ => h

theorem bind {x : Engine α} {y : Nat → Engine α} {f : α → Engine β} {k : Nat → α → Engine β}
    (h : Tends x y) (hf : ∀ a, Tends (f a) fun n => k n a) :
    Tends (x >>= f) fun n => y n >>= k n := by
  intro s r hr
  obtain ⟨⟨a, s'⟩, hx, hfa⟩ := Option.bind_eq_some_iff.mp hr
  filter_upwards [h hx, hf a hfa] with n hy hk
  exact Option.bind_eq_some_iff.mpr ⟨_, hy, hk⟩

theorem bind_const {x : Engine α} {y : Nat → Engine α} {f : α → Engine β} (h : Tends x y) :
    Tends (x >>= f) fun n => y n >>= f :=
  h.bind fun a => const (f a)

end Tends

/-- The parsers `q n` tend to `p`, wherever they are run. -/
def Parser.Tends {α : Type} (p : Parser Engine α) (q : Nat → Parser Engine α) : Prop :=
  ∀ c, FurthestFailure.Tends (p c) fun n => q n c

namespace Parser.Tends
variable {α β σ : Type} {p : Parser Engine α} {q : Nat → Parser Engine α}

theorem map (h : p.Tends q) (f : α → β) : (p.map f).Tends fun n => (q n).map f :=
  fun c => (h c).bind_const

theorem lookahead (h : p.Tends q) : p.lookahead.Tends fun n => (q n).lookahead :=
  fun c => (h c).bind_const

theorem optional (h : p.Tends q) : p.optional.Tends fun n => (q n).optional :=
  fun c => (h c).bind_const

theorem notFollowedBy (h : p.Tends q) : p.notFollowedBy.Tends fun n => (q n).notFollowedBy :=
  fun c => (h c).bind_const

theorem describe (h : p.Tends q) (label : String) :
    (p.describe label).Tends fun n => (q n).describe label :=
  fun c => (h c).bind_const

theorem mark (h : p.Tends q) : p.mark.Tends fun n => (q n).mark :=
  fun c => (h c).bind_const

theorem chain (h : p.Tends q) {next : α → Parser Engine β} {next' : Nat → α → Parser Engine β}
    (hnext : ∀ a, (next a).Tends fun n => next' n a) :
    (p.chain next).Tends fun n => (q n).chain (next' n) := by
  intro c
  refine (h c).bind fun o => ?_
  cases o with
  | success s => exact (hnext s.value s.rest).bind_const
  | failure t => exact .const _

variable {ι : Type} {run : ι → Parser Engine α} {run' : Nat → ι → Parser Engine α} {is : List ι}

theorem sequenceFrom (h : ∀ i ∈ is, (run i).Tends fun n => run' n i) (values : List α)
    (trail : Option Trail) : (Parser.sequenceFrom (is.map run) values trail).Tends fun n =>
      Parser.sequenceFrom (is.map (run' n)) values trail := by
  induction is generalizing values trail with
  | nil => exact fun _ => .const _
  | cons i is ih =>
    obtain ⟨hi, his⟩ := List.forall_mem_cons.mp h
    intro c
    refine (hi c).bind fun o => ?_
    cases o with
    | success s => exact ih his _ _ _
    | failure t => exact .const _

theorem choiceFrom (h : ∀ i ∈ is, (run i).Tends fun n => run' n i) (trail : Option Trail) :
    (Parser.choiceFrom (is.map run) trail).Tends fun n =>
      Parser.choiceFrom (is.map (run' n)) trail := by
  induction is generalizing trail with
  | nil => exact fun _ => .const _
  | cons i is ih =>
    obtain ⟨hi, his⟩ := List.forall_mem_cons.mp h
    intro c
    refine (hi c).bind fun o => ?_
    cases o with
    | success s => exact .const _
    | failure t => exact ih his _ _

theorem timesFrom (h : p.Tends q) (count : Nat) (values : List α) (trail : Option Trail) :
    (p.timesFrom count values trail).Tends fun n => (q n).timesFrom count values trail := by
  induction count generalizing values trail with
  | zero => exact fun _ => .const _
  | succ count ih =>
    intro c
    refine (h c).bind fun o => ?_
    cases o with
    | success s => exact ih _ _ _
    | failure t => exact .const _

theorem manyFrom (h : p.Tends q) (rounds : Nat) (values : List α) (trail : Option Trail) :
    Parser.Tends (p.manyFrom rounds values trail) fun n => (q n).manyFrom rounds values trail := by
  intro c
  induction rounds, c using Parser.rounds_induction generalizing values trail with
  | round rounds c ih =>
    simp only [Parser.manyFrom.eq_1 _ rounds values trail c]
    refine (h c).bind fun o => ?_
    cases o with
    | failure t => exact .const _
    | success s =>
      by_cases hi : s.rest.position.index = c.position.index
      · simp only [if_pos hi]
        exact .const _
      · simp only [if_neg hi]
        by_cases hl : s.rest.rest.length < c.rest.length ∨ 0 < rounds
        · simp only [dif_pos hl]
          exact ih _ hl _ _
        · simp only [dif_neg hl]
          exact .const _

theorem many (h : p.Tends q) : p.many.Tends fun n => (q n).many :=
  h.manyFrom Parser.roundLimit [] none

variable {sep : Parser Engine σ} {sep' : Nat → Parser Engine σ}

theorem separatedFrom (h : p.Tends q) (hsep : sep.Tends sep') (rounds : Nat) (values : List α)
    (trail : Option Trail) :
    Parser.Tends (Parser.separatedFrom p sep rounds values trail) fun n =>
      Parser.separatedFrom (q n) (sep' n) rounds values trail := by
  intro c
  induction rounds, c using Parser.rounds_induction generalizing values trail with
  | round rounds c ih =>
    simp only [Parser.separatedFrom.eq_1 _ _ rounds values trail c]
    refine (hsep c).bind fun o => ?_
    cases o with
    | failure t => exact .const _
    | success between =>
      refine (h between.rest).bind fun o => ?_
      cases o with
      | failure t => exact .const _
      | success s =>
        by_cases hl : s.rest.rest.length < c.rest.length ∨ 0 < rounds
        · simp only [dif_pos hl]
          exact ih _ hl _ _
        · simp only [dif_neg hl]
          exact .const _

theorem separatedBy (h : p.Tends q) (hsep : sep.Tends sep') :
    (p.separatedBy sep).Tends fun n => (q n).separatedBy (sep' n) := by
  intro c
  refine (h c).bind fun o => ?_
  cases o with
  | success s => exact separatedFrom h hsep _ _ _ _
  | failure t => exact .const _

theorem separatedBy1 (h : p.Tends q) (hsep : sep.Tends sep') :
    (p.separatedBy1 sep).Tends fun n => (q n).separatedBy1 (sep' n) := by
  intro c
  refine (h c).bind fun o => ?_
  cases o with
  | success s => exact separatedFrom h hsep _ _ _ _
  | failure t => exact .const _

end Parser.Tends

section
variable {run : Grammar → Parser Engine Value} {run' : Nat → Grammar → Parser Engine Value}
variable (hrun : ∀ g, (run g).Tends fun n => run' n g)
include hrun

theorem Assembly.perform_tends : ∀ a : Assembly, Tends (a.perform run) fun n => a.perform (run' n)
  | .done _ | .refuse _ => .const _
  | .placeholder next => (Tends.const _).bind fun slot => perform_tends (next slot)
  | .define _ _ next => (Tends.const _).bind fun _ => perform_tends next
  | .deferred _ _ _ next =>
    (Tends.const _).bind fun slot => (Tends.const _).bind fun _ => perform_tends (next slot)
  | .attempt g text next => (hrun g (.start text)).bind fun o => perform_tends (next o)
  | .publish _ _ next => (Tends.const _).bind fun _ => perform_tends next

theorem Assembly.performed_tends (a : Assembly) :
    Tends (a.performed run) fun n => a.performed (run' n) :=
  (a.perform_tends hrun).bind_const

theorem Store.enter_tends (slot : Nat) :
    Tends (Store.enter run slot) fun n => Store.enter (run' n) slot := by
  refine (Tends.const _).bind fun state => ?_
  rcases state with _ | _ | build | g | _
  · exact .const _
  · exact .const _
  · exact (Tends.const _).bind fun _ => (build.performed_tends hrun).bind_const
  · exact .const _
  · exact .const _

theorem Grammar.parser_tends (g : Grammar) :
    (g.parser run (Store.enter run) (Assembly.performed run)).Tends fun n =>
      g.parser (run' n) (Store.enter (run' n)) (Assembly.performed (run' n)) := by
  cases g with
  | leaf l => exact fun _ => .const _
  | map g f => exact (hrun g).map f
  | chain g next =>
    exact (hrun g).chain fun v c => ((next v).performed_tends hrun).bind fun g => hrun g c
  | sequence gs => exact (Parser.Tends.sequenceFrom (fun g _ => hrun g) [] none).map _
  | choice gs => exact Parser.Tends.choiceFrom (fun g _ => hrun g) none
  | many g => exact (hrun g).many.map _
  | times g count => exact ((hrun g).timesFrom count [] none).map _
  | separatedBy g h => exact ((hrun g).separatedBy (hrun h)).map _
  | separatedBy1 g h => exact ((hrun g).separatedBy1 (hrun h)).map _
  | lookahead g => exact (hrun g).lookahead
  | optional g => exact (hrun g).optional.map _
  | notFollowedBy g => exact (hrun g).notFollowedBy.map _
  | describe g label => exact (hrun g).describe label
  | mark g => exact (hrun g).mark.map _
  | node g name => exact ((hrun g).mark.map _).map _
  | handle slot label =>
    intro c
    refine (Store.enter_tends hrun slot).bind fun found => ?_
    cases found with
    | some g => exact hrun g c
    | none => exact .const _
  | holding slots g => exact hrun g

end

namespace Grammar
variable {g : Grammar} {c : Cursor} {store : Store} {r : Outcome Value × Store}

open Classical in
/-- The run without a bound on its depth. -/
noncomputable def unbounded (g : Grammar) : Parser Engine Value := fun c store =>
  if h : ∃ r depth, g.runWithin depth c store = some r then some h.choose else none

theorem runWithin_agrees {n m : Nat} {r' : Outcome Value × Store}
    (h : g.runWithin n c store = some r) (h' : g.runWithin m c store = some r') : r = r' := by
  have hn := runWithin_mono (Nat.le_max_left n m) h
  have hm := runWithin_mono (Nat.le_max_right n m) h'
  rw [hn] at hm
  exact Option.some.inj hm

theorem unbounded_eq_some_iff :
    g.unbounded c store = some r ↔ ∃ depth, g.runWithin depth c store = some r := by
  rw [unbounded]
  split
  · next h =>
    obtain ⟨depth, hdepth⟩ := h.choose_spec
    constructor
    · intro hr
      exact ⟨depth, Option.some.inj hr ▸ hdepth⟩
    · rintro ⟨depth', hdepth'⟩
      rw [runWithin_agrees hdepth hdepth']
  · next h => simpa using fun depth hdepth => h ⟨r, depth, hdepth⟩

theorem unbounded_tends (g : Grammar) : g.unbounded.Tends fun n => g.runWithin n := by
  intro c s r h
  obtain ⟨depth, hdepth⟩ := unbounded_eq_some_iff.mp h
  filter_upwards [eventually_ge_atTop depth] with n hn
  exact runWithin_mono hn hdepth

theorem unbounded_of_parts (h : g.parser unbounded (Store.enter unbounded)
    (Assembly.performed unbounded) c store = some r) : g.unbounded c store = some r := by
  obtain ⟨n, hn⟩ := ((g.parser_tends unbounded_tends) c h).exists
  exact unbounded_eq_some_iff.mpr ⟨n + 1, hn⟩

theorem agree_unbounded {σ : Type} {K : Correspondence σ Store} {V : Value → Value → Prop}
    {p : Parser (StateT σ Option) Value} (h : K.Agree V p
      (g.parser unbounded (Store.enter unbounded) (Assembly.performed unbounded))) :
    K.Agree V p g.unbounded := by
  intro c d hcd s t hst r hr
  obtain ⟨r', hr', hleft⟩ := h hcd hst hr
  exact ⟨r', unbounded_of_parts hr', hleft⟩

open Correspondence in
/-- The run without a bound is a solution of the equations that the combinators make. -/
theorem unbounded_eq (g : Grammar) : g.unbounded =
    g.parser unbounded (Store.enter unbounded) (Assembly.performed unbounded) := by
  funext c store
  refine Option.ext fun r => ⟨fun h => ?_, unbounded_of_parts⟩
  obtain ⟨_ | n, hn⟩ := unbounded_eq_some_iff.mp h
  · cases hn
  · -- Each part of the bounded run is a part of the one without a bound.
    have hrun : ∀ g : Grammar, g.Everywhere (fun _ => True) →
        (same (Store.Everywhere fun _ => True)).Agree Eq (g.runWithin n) g.unbounded := by
      rintro g - c _ rfl s _ ⟨rfl, -⟩ r hr
      exact ⟨r, unbounded_eq_some_iff.mpr ⟨n, hr⟩, same_left_iff.mpr ⟨rfl, r.2.everywhere_true⟩⟩
    have hparts := same_of_enter Store.lasting_everywhere hrun
      (fun slot s t h => enter_follows Store.lasting_everywhere hrun slot h) g.everywhere_true
    obtain ⟨r', hr', hleft⟩ := hparts rfl ⟨rfl, store.everywhere_true⟩ hn
    rw [hr', (same_left_iff.mp hleft).1]

theorem unbounded_leaf (l : Leaf) (c : Cursor) (store : Store) :
    (leaf l).unbounded c store = some (l.run c, store) := by
  rw [unbounded_eq]
  rfl

theorem unbounded_map (g : Grammar) (f : Value → Value) :
    (g.map f).unbounded = g.unbounded.map f := unbounded_eq _

theorem unbounded_sequence (gs : List Grammar) :
    (sequence gs).unbounded = (Parser.sequence (gs.map unbounded)).map Value.list := unbounded_eq _

theorem unbounded_choice (gs : List Grammar) :
    (choice gs).unbounded = Parser.choice (gs.map unbounded) := unbounded_eq _

theorem unbounded_many (g : Grammar) :
    (many g).unbounded = g.unbounded.many.map Value.list := unbounded_eq _

theorem unbounded_holding (slots : List Nat) (g : Grammar) :
    (holding slots g).unbounded = g.unbounded := unbounded_eq _

theorem unbounded_handle {slot : Nat} {label : String} (hg : store.filled? slot = some g) :
    (handle slot label).unbounded c store = g.unbounded c store := by
  have hnot : ∀ build, store.stateAt slot ≠ some (.deferred build) := by
    intro build hb
    rw [Store.filled?_eq_some_iff.mp hg] at hb
    cases hb
  rw [unbounded_eq]
  change (Store.enter unbounded slot store).bind _ = _
  rw [Store.enter_of_not_deferred hnot, hg]
  rfl

end Grammar
end FurthestFailure
