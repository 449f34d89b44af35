import FurthestFailure.Proofs.FixedPoints
import FurthestFailure.Proofs.Languages.Assembling

/-! # Handles are fixed points

In a language, the parser of a rule ends exactly as what the builder of the rule makes, if the parsers
of the finished language take the places of the handles that the builder was given. With recursive
grammars and references this is so for every kind of handle.
-/
namespace FurthestFailure
set_option autoImplicit false

mutual

/-- The grammar in which every handle to one of the slots keeps all of them alive. -/
def Grammar.owning (slots : List Nat) : Grammar → Grammar
  | .leaf l => .leaf l
  | .map g f => .map (g.owning slots) f
  | .chain g next => .chain (g.owning slots) fun v => (next v).owning slots
  | .sequence gs => .sequence (Grammar.allOwning slots gs)
  | .choice gs => .choice (Grammar.allOwning slots gs)
  | .many g => .many (g.owning slots)
  | .times g count => .times (g.owning slots) count
  | .separatedBy g h => .separatedBy (g.owning slots) (h.owning slots)
  | .separatedBy1 g h => .separatedBy1 (g.owning slots) (h.owning slots)
  | .lookahead g => .lookahead (g.owning slots)
  | .optional g => .optional (g.owning slots)
  | .notFollowedBy g => .notFollowedBy (g.owning slots)
  | .describe g label => .describe (g.owning slots) label
  | .mark g => .mark (g.owning slots)
  | .node g name => .node (g.owning slots) name
  | .handle slot label =>
    if slot ∈ slots then .holding slots (.handle slot label) else .handle slot label
  | .holding held g => .holding held (g.owning slots)

def Grammar.allOwning (slots : List Nat) : List Grammar → List Grammar
  | [] => []
  | g :: gs => g.owning slots :: Grammar.allOwning slots gs

def Assembly.owning (slots : List Nat) : Assembly → Assembly
  | .done g => .done (g.owning slots)
  | .refuse e => .refuse e
  | .placeholder next => .placeholder fun slot => (next slot).owning slots
  | .define slot g next => .define slot (g.owning slots) (next.owning slots)
  | .deferred name keeps build next =>
    .deferred name keeps (fun slot => (build slot).owning slots) fun slot => (next slot).owning slots
  | .attempt g text next => .attempt (g.owning slots) text fun o => (next o).owning slots
  | .publish name g next => .publish name (g.owning slots) (next.owning slots)

end

mutual

theorem Grammar.owning_nil : ∀ g : Grammar, g.owning [] = g
  | .leaf _ => rfl
  | .handle _ _ => if_neg List.not_mem_nil
  | .map g f => congrArg (Grammar.map · f) g.owning_nil
  | .chain g next =>
    congrArg₂ Grammar.chain g.owning_nil (funext fun v => (next v).owning_nil)
  | .sequence gs => congrArg Grammar.sequence (Grammar.allOwning_nil gs)
  | .choice gs => congrArg Grammar.choice (Grammar.allOwning_nil gs)
  | .many g => congrArg Grammar.many g.owning_nil
  | .times g count => congrArg (Grammar.times · count) g.owning_nil
  | .separatedBy g h => congrArg₂ Grammar.separatedBy g.owning_nil h.owning_nil
  | .separatedBy1 g h => congrArg₂ Grammar.separatedBy1 g.owning_nil h.owning_nil
  | .lookahead g => congrArg Grammar.lookahead g.owning_nil
  | .optional g => congrArg Grammar.optional g.owning_nil
  | .notFollowedBy g => congrArg Grammar.notFollowedBy g.owning_nil
  | .describe g label => congrArg (Grammar.describe · label) g.owning_nil
  | .mark g => congrArg Grammar.mark g.owning_nil
  | .node g name => congrArg (Grammar.node · name) g.owning_nil
  | .holding slots g => congrArg (Grammar.holding slots) g.owning_nil

theorem Grammar.allOwning_nil : ∀ gs : List Grammar, Grammar.allOwning [] gs = gs
  | [] => rfl
  | g :: gs => congrArg₂ List.cons g.owning_nil (Grammar.allOwning_nil gs)

theorem Assembly.owning_nil : ∀ a : Assembly, a.owning [] = a
  | .done g => congrArg Assembly.done g.owning_nil
  | .refuse _ => rfl
  | .placeholder next => congrArg Assembly.placeholder (funext fun slot => (next slot).owning_nil)
  | .define slot g next => congrArg₂ (Assembly.define slot) g.owning_nil next.owning_nil
  | .deferred name keeps build next =>
    congrArg₂ (Assembly.deferred name keeps) (funext fun slot => (build slot).owning_nil)
      (funext fun slot => (next slot).owning_nil)
  | .attempt g text next =>
    congrArg₂ (Assembly.attempt · text) g.owning_nil (funext fun o => (next o).owning_nil)
  | .publish name g next => congrArg₂ (Assembly.publish name) g.owning_nil next.owning_nil

end

theorem Grammar.bare_owning (slots : List Nat) :
    ∀ g : Grammar, (g.owning slots).bare = (g.bare.owning slots).bare
  | .holding _ g => g.bare_owning slots
  | .leaf _ | .map _ _ | .chain _ _ | .sequence _ | .choice _ | .many _ | .times _ _
  | .separatedBy _ _ | .separatedBy1 _ _ | .lookahead _ | .optional _ | .notFollowedBy _
  | .describe _ _ | .mark _ | .node _ _ | .handle _ _ => rfl

theorem Grammar.bare_owning_of_bare {slots : List Nat} {g h : Grammar} (hb : g.bare = h) :
    (g.owning slots).bare = (h.owning slots).bare := by
  rw [bare_owning, hb]

theorem Grammar.bare_owning_handle (slots : List Nat) (slot : Nat) (label : String) :
    ((Grammar.handle slot label).owning slots).bare = .handle slot label := by
  rw [owning]
  split
  · rfl
  · rfl

section
variable (slots slots' : List Nat)

mutual

theorem Grammar.Renamed.owning :
    ∀ {ρ : Link} {g h : Grammar}, g.Renamed ρ h → (g.owning slots).Renamed ρ (h.owning slots')
  | _, .leaf _, _, hb => Grammar.bare_owning_of_bare hb
  | _, .map _ _, _, ⟨_, hb, hg⟩ | _, .many _, _, ⟨_, hb, hg⟩ | _, .times _ _, _, ⟨_, hb, hg⟩
  | _, .lookahead _, _, ⟨_, hb, hg⟩ | _, .optional _, _, ⟨_, hb, hg⟩
  | _, .notFollowedBy _, _, ⟨_, hb, hg⟩ | _, .describe _ _, _, ⟨_, hb, hg⟩
  | _, .mark _, _, ⟨_, hb, hg⟩ | _, .node _ _, _, ⟨_, hb, hg⟩ =>
    ⟨_, Grammar.bare_owning_of_bare hb, hg.owning⟩
  | _, .chain _ _, _, ⟨_, _, hb, hg, hnext⟩ =>
    ⟨_, _, Grammar.bare_owning_of_bare hb, hg.owning, fun v => (hnext v).owning⟩
  | _, .sequence _, _, ⟨_, hb, hgs⟩ | _, .choice _, _, ⟨_, hb, hgs⟩ =>
    ⟨_, Grammar.bare_owning_of_bare hb, hgs.owning⟩
  | _, .separatedBy _ _, _, ⟨_, _, hb, hg, hk⟩ | _, .separatedBy1 _ _, _, ⟨_, _, hb, hg, hk⟩ =>
    ⟨_, _, Grammar.bare_owning_of_bare hb, hg.owning, hk.owning⟩
  | _, .handle slot label, _, ⟨slot', hb, hslot⟩ => by
    refine Grammar.Renamed.of_bare_eq (h := .handle slot' label) ?_ ?_
    · rw [Grammar.bare_owning_of_bare hb, Grammar.bare_owning_handle]
      rfl
    · rw [Grammar.owning]
      split
      · exact ⟨slot', rfl, hslot⟩
      · exact ⟨slot', rfl, hslot⟩
  | _, .holding _ g, _, h => Grammar.Renamed.owning (g := g) h

theorem Grammar.AllRenamed.owning :
    ∀ {ρ : Link} {gs hs : List Grammar}, Grammar.AllRenamed ρ gs hs →
      Grammar.AllRenamed ρ (Grammar.allOwning slots gs) (Grammar.allOwning slots' hs)
  | _, [], _, rfl => rfl
  | _, _ :: _, _, ⟨_, _, rfl, hg, hgs⟩ => ⟨_, _, rfl, hg.owning, hgs.owning⟩

theorem Assembly.Renamed.owning : ∀ {role : Assembly.Role} {ρ own : Link} {a b : Assembly},
    a.Renamed role ρ own b → (a.owning slots).Renamed role ρ own (b.owning slots')
  | _, _, _, .done _, _, ⟨_, rfl, hg⟩ => ⟨_, rfl, hg.owning⟩
  | _, _, _, .refuse _, _, rfl => rfl
  | _, _, _, .placeholder _, _, ⟨_, rfl, hnext⟩ => ⟨_, rfl, fun i j => (hnext i j).owning⟩
  | _, _, _, .define _ _ _, _, ⟨_, _, _, rfl, hs, hg, hnext⟩ =>
    ⟨_, _, _, rfl, hs, hg.owning, hnext.owning⟩
  | _, _, _, .deferred _ _ _ _, _, ⟨_, _, _, rfl, hbuild, hnext⟩ =>
    ⟨_, _, _, rfl, fun i j => (hbuild i j).owning, fun i j => (hnext i j).owning⟩
  | _, _, _, .attempt _ _ _, _, ⟨hrole, _, _, rfl, hg, hnext⟩ =>
    ⟨hrole, _, _, rfl, hg.owning, fun o => (hnext o).owning⟩
  | _, _, _, .publish _ _ _, _, ⟨_, _, rfl, hg, hnext⟩ => ⟨_, _, rfl, hg.owning, hnext.owning⟩

end
end

namespace Language
variable {run : Grammar → Parser Engine Value} {rules : List Rule} {r : Rule} {s t : Store}
variable {l : Language}

theorem nodup_of_build (h : build run rules s = some (.ok l, t)) : (rules.map (·.name)).Nodup := by
  rw [build] at h
  cases hfirst : firstRepeated [] (rules.map (·.name)) with
  | none => exact (firstRepeated_eq_none_iff.mp hfirst).1
  | some name =>
    rw [hfirst] at h
    cases h

theorem filled_of_build (hs : s.Scoped) (hrules : ∀ r ∈ rules, r.Assembles s)
    (h : build run rules s = some (.ok l, t)) : l.rules = ruleSet s.slots.size rules ∧
      Filled l.rules (rules.zipIdx s.slots.size) (s.widened rules.length) t := by
  obtain ⟨result, t', hbuild, hfilled, -⟩ := exists_build run hs (nodup_of_build h) hrules
  rw [h] at hbuild
  cases hbuild
  obtain ⟨hl, hfilled⟩ := hfilled l rfl
  rw [hl]
  exact ⟨rfl, hfilled⟩

/-- The parser of a rule ends exactly as what the builder of the rule makes of the parsers of the
language. -/
theorem get_unfolds (hs : s.Scoped) (hrules : ∀ r ∈ rules, r.Assembles s)
    (h : build run rules s = some (.ok l, t)) (hr : r ∈ rules) :
    ∃ p g u, l.get r.name r.output = .ok p ∧
      ((r.build l.rules).owning l.rules.slots).perform run t = some (.ok g, u) ∧
      p.EndsAs t g u := by
  obtain ⟨hl, hfilled⟩ := filled_of_build hs hrules h
  obtain ⟨slot, hslot⟩ := exists_slot hr s.slots.size
  have hget : l.rules.slot r.name r.output = .ok slot := by
    rw [hl]
    exact slot_ruleSet (nodup_of_build h) hslot
  have hbuilt : t.Admits .builder (r.build l.rules) := by
    rw [hl]
    exact (admits_build (hrules r hr)).mono hfilled.size_le
  have howning := Assembly.Renamed.owning l.rules.slots [] hbuilt
  rw [Assembly.owning_nil] at howning
  obtain ⟨g₀, hstate, hyielded⟩ := hfilled.made _ hslot
  obtain ⟨g, u, hmade, hends⟩ := Grammar.endsAs_remade run hfilled.isScoped hstate hyielded
    (Assembly.Renamed.owning l.rules.slots l.rules.slots hbuilt) howning l.rules.slots r.name
  exact ⟨_, g, u, get_of_slot hget, hmade, hends⟩

end Language

/-- Recursive grammars, references and the parsers of languages are fixed points: each ends exactly as
what its builder makes of the finished grammars. -/
theorem handles_unfold {s : Store} (hs : s.Scoped) (run : Grammar → Parser Engine Value) :
    (∀ build, s.Uniform build → ∀ label, ∃ result t,
      (Assembling.recursive label (fun g => (build g).andThen) .done).perform run s =
        some (result, t) ∧
      ∀ r, result = .ok r → ∃ g u, (build r).perform run t = some (.ok g, u) ∧ r.EndsAs t g u) ∧
    (∀ build, s.Uniform build → ∀ name keeps, ∃ r t result u,
      (Assembling.reference name keeps (fun g => (build g).andThen) .done).perform run s =
        some (.ok r, t) ∧
      (build r).perform run t = some (result, u) ∧
      (∀ g, result = .ok g → r.EndsAs t g u) ∧
      ∀ e, result = .error e → ∀ c o, ¬ r.Ends c t o) ∧
    ∀ rules : List Rule, (∀ r ∈ rules, r.Assembles s) → ∀ l t,
      Language.build run rules s = some (.ok l, t) → ∀ r ∈ rules, ∃ p g u,
        l.get r.name r.output = .ok p ∧
        ((r.build l.rules).owning l.rules.slots).perform run t = some (.ok g, u) ∧
        p.EndsAs t g u := by
  refine ⟨fun build hbuild label => ?_, fun build hbuild name keeps => ?_, ?_⟩
  · exact Assembling.recursive_unfolds hs hbuild label run
  · exact Assembling.reference_unfolds hs hbuild name keeps run
  · intro rules hrules l t hbuild r hr
    exact Language.get_unfolds hs hrules hbuild hr

theorem handles_unfold_nestedLists :
    (∃ r t g u, (Assembling.recursive "nested"
        (fun g => (Assembly.done g.parenthesised.orX).andThen) .done).perform Grammar.run {} =
          some (.ok r, t) ∧
      (Assembly.done r.parenthesised.orX).perform Grammar.run t = some (.ok g, u) ∧
      r.EndsAs t g u) ∧
    ∃ l t, Language.build Grammar.run nestedLists {} = some (.ok l, t) ∧
      ∀ r ∈ nestedLists, ∃ p g u, l.get r.name r.output = .ok p ∧
        ((r.build l.rules).owning l.rules.slots).perform Grammar.run t = some (.ok g, u) ∧
        p.EndsAs t g u := by
  obtain ⟨hrecursive, -, hlanguage⟩ := handles_unfold Store.scoped_empty Grammar.run
  constructor
  · obtain ⟨result, t, hresult, hunfolds⟩ := hrecursive (fun g => .done g.parenthesised.orX)
      (fun ρ _ g h hgh => ⟨_, rfl, hgh.parenthesised.orX⟩) "nested"
    have hmade : ∃ r t, (Assembling.recursive "nested"
        (fun g => (Assembly.done g.parenthesised.orX).andThen) .done).perform Grammar.run {} =
          some (.ok r, t) := ⟨_, _, rfl⟩
    obtain ⟨r, _, hmade⟩ := hmade
    rw [hmade] at hresult
    cases hresult
    obtain ⟨g, u, hg, hends⟩ := hunfolds r rfl
    exact ⟨r, t, g, u, hmade, hg, hends⟩
  · have hbuild : ∃ l t, Language.build Grammar.run nestedLists {} = some (.ok l, t) :=
      ⟨_, _, rfl⟩
    obtain ⟨l, t, hbuild⟩ := hbuild
    exact ⟨l, t, hbuild, hlanguage _ (nestedLists_assemble {}) l t hbuild⟩

end FurthestFailure
