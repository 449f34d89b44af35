import FurthestFailure.Proofs.Anew.Keeping
import FurthestFailure.Proofs.Languages.RuleSets

/-! # Languages of rules that only assemble

A rule whose builder only puts parsers together, out of the set it is given and of what was there
before, cannot tell one slot from another. Its builder makes a grammar or refuses whatever the
slots are and whatever they hold. If none refuses, then at the end every slot holds what the builder
of its rule made, with all that was made along with it.
-/
namespace FurthestFailure
set_option autoImplicit false

/-- The rules of both sets have the same names and types, and linked slots. -/
def RuleSet.Renamed (ρ : Link) (a b : RuleSet) : Prop :=
  List.Forall₂ (fun e e' => e.name = e'.name ∧ e.output = e'.output ∧ ρ e.slot e'.slot)
    a.entries b.entries

namespace RuleSet
variable {ρ : Link} {a b : RuleSet}

theorem Renamed.find? (h : a.Renamed ρ b) (name : String) :
    Option.Rel (fun e e' => e.name = e'.name ∧ e.output = e'.output ∧ ρ e.slot e'.slot)
      (a.find? name) (b.find? name) := by
  rw [RuleSet.find?, RuleSet.find?]
  rw [Renamed] at h
  generalize a.entries = es, b.entries = es' at h
  induction h with
  | nil => exact .none
  | @cons e e' es es' he _ ih =>
    rw [List.find?_cons, List.find?_cons, ← he.1]
    split
    · exact .some he
    · exact ih

/-- Sets that are renamings of each other give the same answers. -/
theorem Renamed.slot (h : a.Renamed ρ b) (name output : String) :
    (∃ e, a.slot name output = .error e ∧ b.slot name output = .error e) ∨
      ∃ i j, a.slot name output = .ok i ∧ b.slot name output = .ok j ∧ ρ i j := by
  have hfind := h.find? name
  rw [RuleSet.slot, RuleSet.slot]
  generalize a.find? name = found, b.find? name = found' at hfind
  cases hfind with
  | none => exact .inl ⟨_, rfl, rfl⟩
  | @some e e' he =>
    obtain ⟨-, houtput, hslot⟩ := he
    simp only [← houtput]
    split
    · exact .inr ⟨_, _, rfl, rfl, hslot⟩
    · exact .inl ⟨_, rfl, rfl⟩

theorem Renamed.get (h : a.Renamed ρ b) (name output : String) :
    (∃ e, a.get name output = .error e ∧ b.get name output = .error e) ∨
      ∃ g k, a.get name output = .ok g ∧ b.get name output = .ok k ∧ g.Renamed ρ k := by
  rw [RuleSet.get, RuleSet.get]
  rcases h.slot name output with ⟨e, ha, hb⟩ | ⟨i, j, ha, hb, hij⟩
  · rw [ha, hb]
    exact .inl ⟨e, rfl, rfl⟩
  · rw [ha, hb]
    exact .inr ⟨_, _, rfl, rfl, j, rfl, hij⟩

end RuleSet

/-- The builder of the rule only assembles: of sets that are renamings of each other it makes
renamings of each other. -/
def Rule.Assembles (s : Store) (r : Rule) : Prop :=
  ∀ ⦃ρ⦄, (∀ i j, Link.below s.slots.size i j → ρ i j) →
    ∀ ⦃a b : RuleSet⦄, a.Renamed ρ b → (r.build a).Renamed .builder ρ .empty (r.build b)

/-- The assembly does not refuse. -/
def Assembly.Makes (a : Assembly) : Prop := ∃ run s g t, a.perform run s = some (.ok g, t)

namespace Assembly
variable {a b : Assembly} {ρ : Link}

theorem makes_iff (hab : a.Renamed .builder ρ .empty b) (run : Grammar → Parser Engine Value) (s : Store) :
    a.Makes ↔ ∃ g t, b.perform run s = some (.ok g, t) := by
  constructor
  · rintro ⟨run', s', h⟩
    exact (perform_ok_iff hab run' run s' s).mp h
  · intro h
    exact ⟨run, s, (perform_ok_iff hab run run s s).mpr h⟩

theorem makes_congr (hab : a.Renamed .builder ρ .empty b) : a.Makes ↔ b.Makes := by
  constructor
  · intro h
    exact ⟨fun _ _ => unending, {}, (makes_iff hab _ _).mp h⟩
  · rintro ⟨run, s, h⟩
    exact (makes_iff hab run s).mpr h

end Assembly

namespace Language
variable {run : Grammar → Parser Engine Value} {set : RuleSet} {r : Rule} {rs : List Rule}
variable {s t : Store} {slot : Nat}

theorem fill_cons_ok (hslot : set.slot r.name r.output = .ok slot) {g : Grammar}
    (h : (r.build set).perform run s = some (.ok g, t)) :
    fill run set (r :: rs) s = fill run set rs (t.defined slot g) := by
  rw [fill, hslot]
  refine (congrArg (Option.bind · _) h).trans ?_
  exact congrArg (Option.bind · fun p => fill run set rs p.2) (Store.define_eq g)

theorem fill_cons_error (hslot : set.slot r.name r.output = .ok slot) {e : GrammarError}
    (h : (r.build set).perform run s = some (.error e, t)) :
    fill run set (r :: rs) s = some (.error e, t) := by
  rw [fill, hslot]
  exact congrArg (Option.bind · _) h

/-- From the store `s` on, every slot got what the builder of its rule made, and all else was left as
it was. -/
structure Filled (set : RuleSet) (rules : List (Rule × Nat)) (s t : Store) : Prop where
  isScoped : t.Scoped
  size_le : s.slots.size ≤ t.slots.size
  kept : ∀ i st, (∀ p ∈ rules, p.2 ≠ i) → s.stateAt i = some st → t.stateAt i = some st
  made : ∀ p ∈ rules, ∃ g, t.stateAt p.2 = some (.filled g) ∧ t.Yielded (p.1.build set) g

/-- The slots of rules are older than what the builders make. -/
theorem Filled.cons {p : Rule × Nat} {ps : List (Rule × Nat)} {u : Store} {g : Grammar}
    (hmade : (p.1.build set).perform run s = some (.ok g, t)) (hkept : s.KeptIn t)
    (hempty : s.stateAt p.2 = some .unfilled)
    (hps : ∀ q ∈ ps, q.2 < s.slots.size ∧ q.2 ≠ p.2) (h : Filled set ps (t.defined p.2 g) u) :
    Filled set (p :: ps) s u := by
  have hothers : ∀ i st, i ≠ p.2 → t.stateAt i = some st →
      (t.defined p.2 g).stateAt i = some st := by
    intro i st hi hst
    rw [Store.stateAt_defined, if_neg hi, hst]
  have hsize := h.size_le
  rw [Store.size_defined] at hsize
  refine ⟨h.isScoped, Nat.le_trans hkept.size_le hsize, fun i st hi hst => ?_, ?_⟩
  · obtain ⟨hip, hi⟩ := List.forall_mem_cons.mp hi
    exact h.kept i st hi (hothers i st (Ne.symm hip) (hkept hst))
  · refine List.forall_mem_cons.mpr ⟨⟨g, ?_, run, s, t, hmade, fun k st hk hst => ?_⟩, h.made⟩
    · refine h.kept p.2 _ (fun q hq => (hps q hq).2) ?_
      rw [Store.stateAt_defined, if_pos rfl, hkept hempty]
      rfl
    · have hp := Store.lt_size_of_stateAt hempty
      refine h.kept k st (fun q hq => ?_) (hothers k st (by omega) hst)
      have hq := (hps q hq).1
      omega

theorem exists_fill (run : Grammar → Parser Engine Value) {base : Nat} (hs : s.Scoped)
    (hslots : ∀ p ∈ rs.zipIdx base, set.slot p.1.name p.1.output = .ok p.2)
    (hempty : ∀ p ∈ rs.zipIdx base, s.stateAt p.2 = some .unfilled)
    (hadmits : ∀ r ∈ rs, s.Admits .builder (r.build set)) :
    ∃ result t, fill run set rs s = some (result, t) ∧
      (result = .ok () → Filled set (rs.zipIdx base) s t) ∧
      (result = .ok () ↔ ∀ r ∈ rs, (r.build set).Makes) := by
  induction rs generalizing base s with
  | nil =>
    refine ⟨.ok (), s, rfl, fun _ => ⟨hs, Nat.le_refl _, fun _ _ _ h => h, nofun⟩, ?_⟩
    exact iff_of_true rfl nofun
  | cons r rs ih =>
    rw [List.zipIdx_cons] at hslots hempty ⊢
    obtain ⟨hslot, hslots⟩ := List.forall_mem_cons.mp hslots
    obtain ⟨hhead, hempty⟩ := List.forall_mem_cons.mp hempty
    obtain ⟨hbuild, hadmits⟩ := List.forall_mem_cons.mp hadmits
    have hmakes := Assembly.makes_iff hbuild run s
    obtain ⟨made, t₁, hmade⟩ := Assembly.exists_perform run hbuild s
    rw [List.forall_mem_cons, hmakes, hmade]
    cases made with
    | error e =>
      refine ⟨.error e, t₁, fill_cons_error hslot hmade, nofun, ?_⟩
      simp
    | ok g =>
      obtain ⟨ht₁, hg, hkept⟩ := hs.perform hbuild hmade
      have hsize : s.slots.size ≤ (t₁.defined base g).slots.size := by
        rw [Store.size_defined]
        exact hkept.size_le
      have hne : ∀ p ∈ rs.zipIdx (base + 1), p.2 ≠ base := by
        intro p hp
        have := (List.mk_mem_zipIdx_iff_le_and_getElem?_sub.mp hp).1
        omega
      have hempty' : ∀ p ∈ rs.zipIdx (base + 1),
          (t₁.defined base g).stateAt p.2 = some .unfilled := by
        intro p hp
        rw [Store.stateAt_defined, if_neg (hne p hp), hkept (hempty p hp)]
      obtain ⟨result, t, hfill, hfilled, hok⟩ := ih (ht₁.defined base hg) hslots hempty'
        (fun r hr => (hadmits r hr).mono hsize)
      refine ⟨result, t, (fill_cons_ok hslot hmade).trans hfill, fun hresult => ?_, ?_⟩
      · have hps : ∀ q ∈ rs.zipIdx (base + 1), q.2 < s.slots.size ∧ q.2 ≠ base :=
          fun q hq => ⟨Store.lt_size_of_stateAt (hempty q hq), hne q hq⟩
        exact (hfilled hresult).cons (p := (r, base)) hmade hkept hhead hps
      · rw [hok]
        exact ⟨fun h => ⟨⟨g, t₁, rfl⟩, fun r hr => h r hr⟩, fun h => h.2⟩

theorem firstRepeated_eq_none_iff {seen names : List String} :
    firstRepeated seen names = none ↔ names.Nodup ∧ ∀ n ∈ names, n ∉ seen := by
  induction names generalizing seen with
  | nil => simp [firstRepeated]
  | cons n ns ih =>
    rw [firstRepeated]
    split
    · next h => simp [h]
    · next h =>
      rw [ih]
      simp only [List.nodup_cons, List.mem_cons]
      grind

theorem widened_scoped (hs : s.Scoped) (count : Nat) : (s.widened count).Scoped := by
  intro i hi
  rw [Store.size_widened] at hi ⊢
  by_cases hlt : i < s.slots.size
  · obtain ⟨st, st', h, h', hst⟩ := hs i hlt
    refine ⟨st, st', ?_, ?_, hst.mono (Store.below_mono (Nat.le_add_right _ _))⟩
    · rw [Store.stateAt_widened_of_lt hlt, h]
    · rw [Store.stateAt_widened_of_lt hlt, h']
  · have hempty := Store.stateAt_widened_of_le (Nat.le_of_not_lt hlt) hi
    exact ⟨_, _, hempty, hempty, .unfilled⟩

variable {rules : List Rule}

theorem slot_bounds {base : Nat} {p : Rule × Nat} (hp : p ∈ rules.zipIdx base) :
    base ≤ p.2 ∧ p.2 < base + rules.length :=
  ⟨(List.mem_zipIdx hp).1, (List.mem_zipIdx hp).2.1⟩

theorem ruleSet_renamed (base : Nat) (rules : List Rule) :
    (ruleSet base rules).Renamed (.below (base + rules.length)) (ruleSet base rules) := by
  refine List.forall₂_same.mpr fun e he => ⟨rfl, rfl, rfl, ?_⟩
  obtain ⟨p, hp, rfl⟩ := mem_ruleSet_iff.mp he
  exact (slot_bounds hp).2

theorem admits_build (hr : r.Assembles s) :
    (s.widened rules.length).Admits .builder (r.build (ruleSet s.slots.size rules)) := by
  have hset := ruleSet_renamed s.slots.size rules
  rw [← Store.size_widened] at hset
  exact hr (Store.below_mono (by simp)) hset

theorem build_eq (hnames : (rules.map (·.name)).Nodup) :
    build run rules s =
      (fill run (ruleSet s.slots.size rules) rules (s.widened rules.length)).map fun p =>
        (p.1.map fun _ => ⟨ruleSet s.slots.size rules⟩, p.2) := by
  have hfirst : firstRepeated [] (rules.map (·.name)) = none :=
    firstRepeated_eq_none_iff.mpr ⟨hnames, by simp⟩
  rw [build, hfirst]
  refine (congrArg (Option.bind · _) (allocate_eq rules .empty s)).trans ?_
  change (fill run (ruleSet s.slots.size rules) rules (s.widened rules.length)).bind _ = _
  rw [Option.map_eq_bind]
  refine Option.bind_congr fun p _ => ?_
  rcases p with ⟨_ | _, t⟩
  · rfl
  · rfl

theorem Filled.old (h : Filled set (rules.zipIdx s.slots.size) (s.widened rules.length) t) :
    s.KeptIn t := by
  intro i st hi
  have hlt := Store.lt_size_of_stateAt hi
  refine h.kept i st (fun p hp => ?_) ?_
  · have hle := (slot_bounds hp).1
    omega
  · rw [Store.stateAt_widened_of_lt hlt, hi]

theorem exists_build (run : Grammar → Parser Engine Value) (hs : s.Scoped)
    (hnames : (rules.map (·.name)).Nodup) (hrules : ∀ r ∈ rules, r.Assembles s) :
    ∃ result t, build run rules s = some (result, t) ∧
      (∀ l, result = .ok l → l = ⟨ruleSet s.slots.size rules⟩ ∧
        Filled (ruleSet s.slots.size rules) (rules.zipIdx s.slots.size) (s.widened rules.length) t) ∧
      ((∃ l, result = .ok l) ↔ ∀ r ∈ rules, (r.build (ruleSet s.slots.size rules)).Makes) := by
  obtain ⟨result, t, hfill, hfilled, hok⟩ := exists_fill run (widened_scoped hs rules.length)
    (fun p hp => slot_ruleSet hnames hp)
    (fun p hp => Store.stateAt_widened_of_le (slot_bounds hp).1 (slot_bounds hp).2)
    (fun r hr => admits_build (hrules r hr))
  rw [build_eq hnames, hfill]
  refine ⟨_, t, rfl, ?_, ?_⟩
  · rintro l hl
    cases result with
    | error e => cases hl
    | ok => exact ⟨(Except.ok.inj hl).symm, hfilled rfl⟩
  · rw [← hok]
    cases result with
    | error e => simp [Except.map]
    | ok => simp [Except.map]

end Language

/-- A rule that is made of one other rule. -/
def Rule.madeOf (name other : String) (body : Grammar → Grammar) : Rule where
  name := name
  output := name
  build set :=
    match set.get other other with
    | .ok g => .done (body g)
    | .error e => .refuse e

theorem Rule.madeOf_assembles (s : Store) (name other : String) {body : Grammar → Grammar}
    (hbody : ∀ ρ g h, g.Renamed ρ h → (body g).Renamed ρ (body h)) :
    (Rule.madeOf name other body).Assembles s := by
  intro ρ _ a b hab
  rcases hab.get other other with ⟨e, ha, hb⟩ | ⟨g, h, ha, hb, hgh⟩
  · simp only [madeOf, ha, hb]
    rfl
  · simp only [madeOf, ha, hb]
    exact ⟨_, rfl, hbody ρ g h hgh⟩

namespace Grammar

def parenthesised (g : Grammar) : Grammar :=
  .sequence [.leaf (.literal "("), g, .leaf (.literal ")")]

def orX (g : Grammar) : Grammar := g.or (.leaf (.literal "x"))

variable {ρ : Link} {g h : Grammar}

theorem Renamed.parenthesised (hg : g.Renamed ρ h) : g.parenthesised.Renamed ρ h.parenthesised :=
  ⟨_, rfl, _, _, rfl, rfl, _, _, rfl, hg, _, _, rfl, rfl, rfl⟩

theorem Renamed.orX (hg : g.Renamed ρ h) : g.orX.Renamed ρ h.orX :=
  ⟨_, rfl, _, _, rfl, hg, _, _, rfl, rfl, rfl⟩

end Grammar

/-- Lists of items in parentheses, where an item is a list in turn. -/
def nestedLists : List Rule :=
  [.madeOf "list" "item" fun item => item.many.parenthesised, .madeOf "item" "list" Grammar.orX]

theorem nestedLists_assemble (s : Store) : ∀ r ∈ nestedLists, r.Assembles s := by
  intro r hr
  rcases List.mem_pair.mp hr with rfl | rfl
  · exact Rule.madeOf_assembles _ _ _ fun ρ g h hgh =>
      Grammar.Renamed.parenthesised (g := g.many) ⟨h, rfl, hgh⟩
  · exact Rule.madeOf_assembles _ _ _ fun ρ g h hgh => hgh.orX

end FurthestFailure
