import FurthestFailure.Proofs.Languages.Guarding
import FurthestFailure.Proofs.Languages.RuleSets

/-! # What a language answers

The set of a language is complete before any builder runs, so a rule can be asked for wherever it
was registered: by the builders, itself included, and later from the language.
-/
namespace FurthestFailure
set_option autoImplicit false

/-- What is answered to one who asks for the rule of the name with values of the type `output`. -/
inductive Language.Answer {α : Type} (rules : List Rule) (name output : String) :
    Except GrammarError α → Prop
  | unknown (h : ∀ r ∈ rules, r.name ≠ name) : Answer rules name output (.error (.unknownRule name))
  | mismatch {r : Rule} (hr : r ∈ rules) (hname : r.name = name) (h : r.output ≠ output) :
    Answer rules name output (.error (.ruleTypeMismatch name output r.output))
  | found {r : Rule} {a : α} (hr : r ∈ rules) (hname : r.name = name) (h : r.output = output) :
    Answer rules name output (.ok a)

/-- Rules are looked up by their names and handed out by the types of their values, wherever in the
list they are. -/
structure Language.Answers {α : Type} (rules : List Rule)
    (look : String → String → Except GrammarError α) : Prop where
  unknown_iff : ∀ name output,
    look name output = .error (.unknownRule name) ↔ ∀ r ∈ rules, r.name ≠ name
  mismatch_iff : ∀ name output found,
    look name output = .error (.ruleTypeMismatch name output found) ↔
      ∃ r ∈ rules, r.name = name ∧ r.output = found ∧ found ≠ output
  found_iff : ∀ name output,
    (∃ a, look name output = .ok a) ↔ ∃ r ∈ rules, r.name = name ∧ r.output = output

namespace Language
variable {α β : Type} {rules : List Rule} {name output : String}

theorem Answer.map {x : Except GrammarError α} (h : Answer rules name output x) (f : α → β) :
    Answer rules name output (do return f (← x)) := by
  cases h with
  | unknown h => exact .unknown h
  | mismatch hr hname h => exact .mismatch hr hname h
  | found hr hname h => exact .found hr hname h

section
variable {x : Except GrammarError α} (h : Answer rules name output x)
include h

theorem Answer.unknown_iff : x = .error (.unknownRule name) ↔ ∀ r ∈ rules, r.name ≠ name := by
  cases h with
  | unknown h => simpa using h
  | mismatch hr hname _ | found hr hname _ => simpa using ⟨_, hr, hname⟩

variable (hsame : ∀ r ∈ rules, ∀ r' ∈ rules, r.name = r'.name → r = r')
include hsame

theorem Answer.mismatch_iff (found : String) :
    x = .error (.ruleTypeMismatch name output found) ↔
      ∃ r ∈ rules, r.name = name ∧ r.output = found ∧ found ≠ output := by
  cases h with
  | unknown h =>
    refine iff_of_false nofun ?_
    rintro ⟨r, hr, hname, -⟩
    exact h r hr hname
  | @mismatch r hr hname h =>
    constructor
    · intro herror
      cases herror
      exact ⟨r, hr, hname, rfl, h⟩
    · rintro ⟨r', hr', hname', rfl, -⟩
      rw [hsame r hr r' hr' (hname.trans hname'.symm)]
  | @found r a hr hname h =>
    refine iff_of_false nofun ?_
    rintro ⟨r', hr', hname', rfl, hne⟩
    rw [hsame r' hr' r hr (hname'.trans hname.symm)] at hne
    exact hne h

theorem Answer.found_iff : (∃ a, x = .ok a) ↔ ∃ r ∈ rules, r.name = name ∧ r.output = output := by
  cases h with
  | unknown h =>
    refine iff_of_false nofun ?_
    rintro ⟨r, hr, hname, -⟩
    exact h r hr hname
  | @mismatch r hr hname h =>
    refine iff_of_false nofun ?_
    rintro ⟨r', hr', hname', houtput⟩
    rw [hsame r' hr' r hr (hname'.trans hname.symm)] at houtput
    exact h houtput
  | @found r a hr hname h => exact iff_of_true ⟨a, rfl⟩ ⟨r, hr, hname, h⟩

end

theorem answers_of_answer (hnames : (rules.map (·.name)).Nodup)
    {look : String → String → Except GrammarError α}
    (h : ∀ name output, Answer rules name output (look name output)) : Answers rules look := by
  have hsame : ∀ r ∈ rules, ∀ r' ∈ rules, r.name = r'.name → r = r' := fun r hr r' hr' =>
    List.inj_on_of_nodup_map hnames hr hr'
  exact {
    unknown_iff := fun name output => (h name output).unknown_iff
    mismatch_iff := fun name output => (h name output).mismatch_iff hsame
    found_iff := fun name output => (h name output).found_iff hsame }

theorem answer_slot (hnames : (rules.map (·.name)).Nodup) (base : Nat) (name output : String) :
    Answer rules name output ((ruleSet base rules).slot name output) := by
  have hset : (ruleSet base rules).names.Nodup :=
    RuleSet.nodup_names_of_pairwise (pairwise_ruleSet hnames)
  rw [RuleSet.slot]
  cases hfind : (ruleSet base rules).find? name with
  | none =>
    refine .unknown fun r hr hname => ?_
    obtain ⟨slot, hslot⟩ := exists_slot hr base
    exact RuleSet.find?_eq_none_iff.mp hfind _ (mem_ruleSet_iff.mpr ⟨_, hslot, rfl⟩) hname
  | some e =>
    obtain ⟨he, hname⟩ := (RuleSet.find?_eq_some_iff hset).mp hfind
    obtain ⟨⟨r, slot⟩, hr, rfl⟩ := mem_ruleSet_iff.mp he
    have hmem := List.fst_mem_of_mem_zipIdx hr
    change Answer rules name output
      (if r.output = output then .ok slot else .error (.ruleTypeMismatch name output r.output))
    by_cases houtput : r.output = output
    · rw [if_pos houtput]
      exact .found hmem hname houtput
    · rw [if_neg houtput]
      exact .mismatch hmem hname houtput

theorem answer_get (hnames : (rules.map (·.name)).Nodup) (base : Nat) (name output : String) :
    Answer rules name output ((ruleSet base rules).get name output) :=
  (answer_slot hnames base name output).map fun slot => Grammar.handle slot name

theorem answer_language_get (hnames : (rules.map (·.name)).Nodup) (base : Nat)
    (name output : String) : Answer rules name output (get ⟨ruleSet base rules⟩ name output) :=
  (answer_get hnames base name output).map (Grammar.holding (ruleSet base rules).slots)

/-- The set has an entry for every rule and for nothing else. -/
structure Complete (rules : List Rule) (set : RuleSet) : Prop where
  names : set.names.Perm (rules.map (·.name))
  own : ∀ r ∈ rules, ∃ slot, set.slot r.name r.output = .ok slot
  contains_iff : ∀ name, set.contains name = true ↔ name ∈ rules.map (·.name)
  slot : Answers rules set.slot
  get : Answers rules set.get
  node : Answers rules set.node

theorem complete_ruleSet (hnames : (rules.map (·.name)).Nodup) (base : Nat) :
    Complete rules (ruleSet base rules) := by
  have hnode : ∀ name output, Answer rules name output ((ruleSet base rules).node name output) :=
    fun name output => (answer_get hnames base name output).map fun g => g.node name
  have hentries : (ruleSet base rules).names.Perm (rules.map (·.name)) :=
    map_entries_perm (fun _ _ => rfl) base rules
  have hslot := answers_of_answer hnames (answer_slot hnames base)
  refine ⟨hentries, fun r hr => (hslot.found_iff r.name r.output).mpr ⟨r, hr, rfl, rfl⟩,
    fun name => ?_, hslot, answers_of_answer hnames (answer_get hnames base),
    answers_of_answer hnames hnode⟩
  rw [← hentries.mem_iff, RuleSet.contains, ← Option.ne_none_iff_isSome, ne_eq,
    RuleSet.find?_eq_none_iff]
  simp [RuleSet.names]

/-- Where every builder has succeeded: each rule is bound, and a parser of a rule keeps all rules of
the language alive. Whatever the store becomes as long as they are, no run of any grammar finds one
of them unbound. -/
structure Ready (rules : List Rule) (l : Language) (t : Store) : Prop where
  bound : ∀ r ∈ rules, ∃ slot, l.rules.slot r.name r.output = .ok slot ∧ t.Fills [slot]
  get : Answers rules l.get
  node : Answers rules l.node
  owned : ∀ name output p, l.get name output = .ok p → ∀ i ∈ l.rules.slots, i ∈ p.owned
  found : ∀ u, t.Becomes l.rules.slots u → ∀ (g : Grammar) depth c o v,
    g.runWithin depth c u = some (o, v) → g.guardedWithin l.rules.slots depth c u = some (o, v)

theorem fills_ruleSet (hnames : (rules.map (·.name)).Nodup) {base : Nat} {t : Store}
    (hbound : ∀ r ∈ rules, ∃ slot, (ruleSet base rules).slot r.name r.output = .ok slot ∧
      t.Fills [slot]) : t.Fills (ruleSet base rules).slots := by
  intro i hi
  obtain ⟨e, he, rfl⟩ := List.mem_map.mp hi
  obtain ⟨⟨r, slot⟩, hr, rfl⟩ := mem_ruleSet_iff.mp he
  obtain ⟨slot', hslot', hfilled⟩ := hbound r (List.fst_mem_of_mem_zipIdx hr)
  rw [slot_ruleSet hnames hr] at hslot'
  cases hslot'
  exact hfilled slot (.head _)

theorem ready_of_bound (hnames : (rules.map (·.name)).Nodup) {base : Nat} {t : Store}
    (hbound : ∀ r ∈ rules, ∃ slot, (ruleSet base rules).slot r.name r.output = .ok slot ∧
      t.Fills [slot]) : Ready rules ⟨ruleSet base rules⟩ t := by
  have hnode : ∀ name output,
      Answer rules name output (node ⟨ruleSet base rules⟩ name output) := fun name output =>
    (answer_language_get hnames base name output).map fun g => g.node name
  refine ⟨hbound, answers_of_answer hnames (answer_language_get hnames base),
    answers_of_answer hnames hnode, ?_, ?_⟩
  · intro name output p hp i hi
    cases hslot : (ruleSet base rules).slot name output with
    | error e =>
      rw [get_of_slot_error (l := ⟨ruleSet base rules⟩) hslot] at hp
      cases hp
    | ok slot =>
      rw [get_of_slot (l := ⟨ruleSet base rules⟩) hslot] at hp
      cases hp
      exact List.mem_append_left _ hi
  · intro u hu g depth c o v hrun
    exact Grammar.guardedWithin_of_runWithin (hu.fills (fills_ruleSet hnames hbound)) hrun

end Language
end FurthestFailure
