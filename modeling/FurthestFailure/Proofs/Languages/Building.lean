import FurthestFailure.Proofs.Languages.Answers
import FurthestFailure.Proofs.Languages.Assembling
import FurthestFailure.Proofs.Recording

/-! # How the building of a language goes

Building has three sources of errors: a name that is registered twice, which is found before any
builder runs; a lookup that a builder makes; and the builder itself. A build that also keeps a log
of the builders it runs shows which of them ran, in what order, what they were given and how they
ended. In all other respects it is the plain build.
-/
namespace FurthestFailure
set_option autoImplicit false

/-- A run of the builder of a rule: the set it was given, and whether it refused. -/
structure BuilderRun where
  rule : String
  set : RuleSet
  outcome : Except GrammarError Unit

namespace Language
variable {run : Grammar → Parser Engine Value} {set : RuleSet} {r : Rule} {rs rules : List Rule}
variable {log : List BuilderRun} {s t : Store} {slot : Nat}

def builderRecording (run : Grammar → Parser Engine Value) (set : RuleSet) (r : Rule) :
    Recording BuilderRun (Except GrammarError Grammar) :=
  Recording.logging (fun _ made => [⟨r.name, set, made.map fun _ => ()⟩])
    (Recording.silently ((r.build set).perform run))

/-- As `fill`, with a log of the builders that ran. -/
def fillRecording (run : Grammar → Parser Engine Value) (set : RuleSet) :
    List Rule → Recording BuilderRun (Except GrammarError Unit)
  | [] => return .ok ()
  | r :: rs => do
    match set.slot r.name r.output with
    | .error e => return .error e
    | .ok slot =>
      match ← builderRecording run set r with
      | .error e => return .error e
      | .ok g =>
        let _ ← Recording.silently (Store.define slot g)
        fillRecording run set rs

/-- As `build`, with a log of the builders that ran. -/
def buildRecording (run : Grammar → Parser Engine Value) (rules : List Rule) :
    Recording BuilderRun (Except GrammarError Language) := do
  match firstRepeated [] (rules.map (·.name)) with
  | some name => return .error (.duplicateRule name)
  | none =>
    let set ← Recording.silently (allocate rules .empty)
    match ← fillRecording run set rules with
    | .error e => return .error e
    | .ok () => return .ok ⟨set⟩

theorem builderRecording_eq : builderRecording run set r (log, s) =
    ((r.build set).perform run s).map fun p =>
      (p.1, (log ++ [⟨r.name, set, p.1.map fun _ => ()⟩], p.2)) := by
  rw [builderRecording, Recording.logging, Recording.silently, Option.map_map]
  rfl

theorem fillRecording_cons_none (hslot : set.slot r.name r.output = .ok slot)
    (h : (r.build set).perform run s = none) :
    fillRecording run set (r :: rs) (log, s) = none := by
  have hrecorded : builderRecording run set r (log, s) = none := by
    rw [builderRecording_eq, h, Option.map_none]
  rw [fillRecording, hslot]
  exact congrArg (Option.bind · _) hrecorded

theorem fillRecording_cons_error (hslot : set.slot r.name r.output = .ok slot) {e : GrammarError}
    (h : (r.build set).perform run s = some (.error e, t)) :
    fillRecording run set (r :: rs) (log, s) =
      some (.error e, (log ++ [⟨r.name, set, .error e⟩], t)) := by
  have hrecorded : builderRecording run set r (log, s) =
      some (.error e, (log ++ [⟨r.name, set, .error e⟩], t)) := by
    rw [builderRecording_eq, h, Option.map_some]
    rfl
  rw [fillRecording, hslot]
  exact congrArg (Option.bind · _) hrecorded

theorem fillRecording_cons_ok (hslot : set.slot r.name r.output = .ok slot) {g : Grammar}
    (h : (r.build set).perform run s = some (.ok g, t)) :
    fillRecording run set (r :: rs) (log, s) =
      fillRecording run set rs (log ++ [⟨r.name, set, .ok ()⟩], t.defined slot g) := by
  have hrecorded : builderRecording run set r (log, s) =
      some (.ok g, (log ++ [⟨r.name, set, .ok ()⟩], t)) := by
    rw [builderRecording_eq, h, Option.map_some]
    rfl
  obtain ⟨taken, hdefine⟩ : ∃ taken, Recording.silently (Store.define slot g)
      (log ++ [⟨r.name, set, .ok ()⟩], t) =
        some (taken, (log ++ [⟨r.name, set, .ok ()⟩], t.defined slot g)) := by
    refine ⟨((t.slots[slot]?).bind (·.fill? g)).isSome, ?_⟩
    rw [Recording.silently, Store.define_eq, Option.map_some]
  rw [fillRecording, hslot]
  refine (congrArg (Option.bind · _) hrecorded).trans ?_
  exact congrArg (Option.bind · fun p => fillRecording run set rs p.2) hdefine

/-- What the log says of a build that ended, of the rules and of its result. -/
structure Report {α : Type} (set : RuleSet) (rules : List Rule) (log : List BuilderRun)
    (result : Except GrammarError α) : Prop where
  order : log.map (·.rule) <+: rules.map (·.name)
  given : ∀ b ∈ log, b.set = set
  refused_iff : ∀ e, result = .error e ↔ ∃ before last, log = before ++ [last] ∧
    (∀ b ∈ before, b.outcome = .ok ()) ∧ last.outcome = .error e
  made_iff : (∃ a, result = .ok a) ↔
    log.map (·.rule) = rules.map (·.name) ∧ ∀ b ∈ log, b.outcome = .ok ()

namespace Report

theorem nil (set : RuleSet) : Report set [] [] (.ok ()) where
  order := List.nil_prefix
  given := nofun
  refused_iff e := by simp
  made_iff := by simp

theorem refused (set : RuleSet) (r : Rule) (rs : List Rule) (e : GrammarError) :
    Report set (r :: rs) [⟨r.name, set, .error e⟩] (.error e : Except GrammarError Unit) where
  order := by simp
  given := by simp
  refused_iff e' := by
    constructor
    · intro h
      cases h
      exact ⟨[], _, rfl, nofun, rfl⟩
    · rintro ⟨before, last, hlog, -, hlast⟩
      have hlog : [] ++ [_] = before ++ [last] := hlog
      obtain ⟨-, hlog⟩ := List.append_inj' hlog rfl
      cases hlog
      exact hlast
  made_iff := by simp

theorem cons {result : Except GrammarError Unit} (h : Report set rs log result) (r : Rule) :
    Report set (r :: rs) (⟨r.name, set, .ok ()⟩ :: log) result where
  order := List.cons_prefix_cons.mpr ⟨rfl, h.order⟩
  given := List.forall_mem_cons.mpr ⟨rfl, h.given⟩
  refused_iff e := by
    rw [h.refused_iff]
    constructor
    · rintro ⟨before, last, rfl, hbefore, hlast⟩
      exact ⟨_ :: before, last, rfl, List.forall_mem_cons.mpr ⟨rfl, hbefore⟩, hlast⟩
    · rintro ⟨before, last, hlog, hbefore, hlast⟩
      cases before with
      | nil =>
        cases hlog
        cases hlast
      | cons b before =>
        cases hlog
        exact ⟨before, last, rfl, fun b hb => hbefore b (.tail _ hb), hlast⟩
  made_iff := by
    rw [h.made_iff]
    simp

theorem map {α β : Type} {result : Except GrammarError α} (h : Report set rs log result)
    (f : α → β) : Report set rs log (result.map f) where
  order := h.order
  given := h.given
  refused_iff e := by
    rw [← h.refused_iff]
    cases result with
    | error e' => simp [Except.map]
    | ok a => simp [Except.map]
  made_iff := by
    rw [← h.made_iff]
    cases result with
    | error e => simp [Except.map]
    | ok a => simp [Except.map]

end Report

/-- The log does not change what is done. -/
theorem fill_eq_recording (run : Grammar → Parser Engine Value) (set : RuleSet) (rs : List Rule)
    (log : List BuilderRun) (s : Store) :
    fill run set rs s = (fillRecording run set rs (log, s)).map fun p => (p.1, p.2.2) := by
  induction rs generalizing log s with
  | nil => rfl
  | cons r rs ih =>
    cases hslot : set.slot r.name r.output with
    | error e =>
      rw [fill, fillRecording, hslot]
      rfl
    | ok slot =>
      cases hperform : (r.build set).perform run s with
      | none =>
        rw [fillRecording_cons_none hslot hperform, fill, hslot]
        exact congrArg (Option.bind · _) hperform
      | some p =>
        obtain ⟨made, t⟩ := p
        cases made with
        | error e =>
          rw [fill_cons_error hslot hperform, fillRecording_cons_error hslot hperform]
          rfl
        | ok g => rw [fill_cons_ok hslot hperform, fillRecording_cons_ok hslot hperform, ← ih]

section
variable (hslots : ∀ r ∈ rs, ∃ slot, set.slot r.name r.output = .ok slot)
include hslots

/-- If filling does not end, the builder of some rule does not end where those before it have
succeeded. -/
theorem exists_fillRecording (log : List BuilderRun) :
    (∃ p, fillRecording run set rs (log, s) = some p) ∨
    ∃ before r after u, rs = before ++ r :: after ∧ fill run set before s = some (.ok (), u) ∧
      (r.build set).perform run u = none := by
  induction rs generalizing log s with
  | nil => exact .inl ⟨_, rfl⟩
  | cons r rs ih =>
    obtain ⟨⟨slot, hslot⟩, hslots⟩ := List.forall_mem_cons.mp hslots
    cases hperform : (r.build set).perform run s with
    | none => exact .inr ⟨[], r, rs, s, rfl, rfl, hperform⟩
    | some p =>
      obtain ⟨made, t⟩ := p
      cases made with
      | error e => exact .inl ⟨_, fillRecording_cons_error hslot hperform⟩
      | ok g =>
        rw [fillRecording_cons_ok hslot hperform]
        refine (ih hslots _).imp id ?_
        rintro ⟨before, r', after, u, rfl, hfill, hnone⟩
        refine ⟨r :: before, r', after, u, rfl, ?_, hnone⟩
        rw [fill_cons_ok hslot hperform, hfill]

theorem report_fillRecording {result : Except GrammarError Unit} {log' : List BuilderRun}
    (h : fillRecording run set rs (log, s) = some (result, (log', t))) :
    ∃ own, log' = log ++ own ∧ Report set rs own result := by
  induction rs generalizing log s with
  | nil =>
    cases h
    exact ⟨[], (List.append_nil _).symm, .nil set⟩
  | cons r rs ih =>
    obtain ⟨⟨slot, hslot⟩, hslots⟩ := List.forall_mem_cons.mp hslots
    cases hperform : (r.build set).perform run s with
    | none =>
      rw [fillRecording_cons_none hslot hperform] at h
      cases h
    | some p =>
      obtain ⟨made, u⟩ := p
      cases made with
      | error e =>
        rw [fillRecording_cons_error hslot hperform] at h
        cases h
        exact ⟨_, rfl, .refused set r rs e⟩
      | ok g =>
        rw [fillRecording_cons_ok hslot hperform] at h
        obtain ⟨own, rfl, hreport⟩ := ih hslots h
        exact ⟨_, List.append_assoc _ _ _, hreport.cons r⟩

end

/-- The slot is there to be filled, if it is not filled yet. -/
def Fillable (s : Store) (slot : Nat) : Prop := ∃ st, s.stateAt slot = some st ∧ st ≠ .released

theorem lasting_fillable (slot : Nat) : Store.Lasting (fun _ => True) (Fillable · slot) := by
  refine Store.lasting_stateAt (fun st g hst => ?_) slot
  cases st with
  | unfilled | deferred | filled => exact nofun
  | released => exact absurd rfl hst

theorem Fillable.fills (h : Fillable s slot) (g : Grammar) : (s.defined slot g).Fills [slot] := by
  intro i hi
  obtain rfl := List.mem_singleton.mp hi
  obtain ⟨st, hst, hne⟩ := h
  refine ⟨st.given g, by rw [Store.stateAt_defined, if_pos rfl, hst, Option.map_some], ?_⟩
  cases st with
  | unfilled | deferred => exact ⟨g, rfl⟩
  | filled k => exact ⟨k, rfl⟩
  | released => exact absurd rfl hne

-- A builder may fill any slot, so a slot still to come may be filled early; none is released, and
-- what is filled stays so.
/-- Where all builders succeed, every rule has a filled slot. -/
theorem fills_fill {depth : Nat}
    (hslots : ∀ r ∈ rs, ∃ slot, set.slot r.name r.output = .ok slot ∧ Fillable s slot)
    (h : fill (Grammar.runWithin depth) set rs s = some (.ok (), t)) :
    ∀ r ∈ rs, ∃ slot, set.slot r.name r.output = .ok slot ∧ t.Fills [slot] := by
  induction rs generalizing s with
  | nil => exact nofun
  | cons r rs ih =>
    obtain ⟨⟨slot, hslot, hfillable⟩, hslots⟩ := List.forall_mem_cons.mp hslots
    rw [fill, hslot] at h
    obtain ⟨⟨made, u⟩, hperform, h⟩ := Option.bind_eq_some_iff.mp h
    have hlasts : ∀ {Q : Store → Prop}, Store.Lasting (fun _ => True) Q → Q s → Q u :=
      fun hQ hs => Assembly.lasts_after hQ (r.build set).everywhere_true hs hperform
    cases made with
    | error e => cases h
    | ok g =>
      obtain ⟨⟨taken, u'⟩, hdefine, h⟩ := Option.bind_eq_some_iff.mp h
      rw [Store.define_eq] at hdefine
      cases hdefine
      have hfilled := (hlasts (lasting_fillable slot) hfillable).fills g
      refine List.forall_mem_cons.mpr ⟨⟨slot, hslot, ?_⟩, ih ?_ h⟩
      · exact lasts_fill (Store.lasting_fills [slot]) rs hfilled h
      · intro r' hr'
        obtain ⟨slot', hslot', hfillable'⟩ := hslots r' hr'
        have hlasting := lasting_fillable slot'
        have hfillable'' := hlasting.defined slot (hlasts hlasting hfillable') g.everywhere_true
        exact ⟨slot', hslot', hfillable''⟩

theorem firstRepeated_eq_some_iff {seen names : List String} {name : String} :
    firstRepeated seen names = some name ↔ ∃ before after, names = before ++ name :: after ∧
      (∀ n ∈ before, n ∉ seen) ∧ before.Nodup ∧ (name ∈ seen ∨ name ∈ before) := by
  induction names generalizing seen with
  | nil => simp [firstRepeated]
  | cons n ns ih =>
    rw [firstRepeated]
    by_cases hn : n ∈ seen
    · rw [if_pos hn]
      constructor
      · intro h
        cases h
        exact ⟨[], ns, rfl, fun _ h => absurd h List.not_mem_nil, .nil, .inl hn⟩
      · rintro ⟨before, after, hsplit, hfresh, -, -⟩
        cases before with
        | nil =>
          cases hsplit
          rfl
        | cons m before =>
          cases hsplit
          exact absurd hn (hfresh n (.head _))
    · rw [if_neg hn, ih]
      constructor
      · rintro ⟨before, after, rfl, hfresh, hnodup, hname⟩
        refine ⟨n :: before, after, rfl, ?_, ?_, ?_⟩
        · refine List.forall_mem_cons.mpr ⟨hn, fun m hm hseen => ?_⟩
          exact hfresh m hm (.tail _ hseen)
        · exact List.nodup_cons.mpr ⟨fun hmem => hfresh n hmem (.head _), hnodup⟩
        · rcases hname with hname | hname
          · exact (List.mem_cons.mp hname).elim (fun h => .inr (h ▸ .head _)) .inl
          · exact .inr (.tail _ hname)
      · rintro ⟨before, after, hsplit, hfresh, hnodup, hname⟩
        cases before with
        | nil =>
          cases hsplit
          exact absurd (hname.resolve_right List.not_mem_nil) hn
        | cons m before =>
          cases hsplit
          obtain ⟨hnew, hnodup⟩ := List.nodup_cons.mp hnodup
          obtain ⟨-, hfresh⟩ := List.forall_mem_cons.mp hfresh
          refine ⟨before, after, rfl, fun m hm hseen => ?_, hnodup, ?_⟩
          · rcases List.mem_cons.mp hseen with rfl | hseen
            · exact hnew hm
            · exact hfresh m hm hseen
          · rcases hname with hname | hname
            · exact .inl (.tail _ hname)
            · exact (List.mem_cons.mp hname).elim (fun h => .inl (h ▸ .head _)) .inr

/-- Of rules two of which share a name, one is the first to repeat the name of an earlier one. -/
theorem exists_first_repeated (h : ¬(rules.map (·.name)).Nodup) :
    ∃ before r after, rules = before ++ r :: after ∧ (before.map (·.name)).Nodup ∧
      r.name ∈ before.map (·.name) ∧ firstRepeated [] (rules.map (·.name)) = some r.name := by
  cases hfirst : firstRepeated [] (rules.map (·.name)) with
  | none => exact absurd (firstRepeated_eq_none_iff.mp hfirst).1 h
  | some name =>
    obtain ⟨names, later, hsplit, -, hnodup, hname⟩ := firstRepeated_eq_some_iff.mp hfirst
    obtain ⟨before, rest, rfl, rfl, hrest⟩ := List.map_eq_append_iff.mp hsplit
    obtain ⟨r, after, rfl, rfl, -⟩ := List.map_eq_cons_iff.mp hrest
    exact ⟨before, r, after, rfl, hnodup, hname.resolve_left nofun, rfl⟩

theorem buildRecording_eq (run : Grammar → Parser Engine Value) (log : List BuilderRun) (s : Store)
    (hnames : (rules.map (·.name)).Nodup) : buildRecording run rules (log, s) =
      (fillRecording run (ruleSet s.slots.size rules) rules (log, s.widened rules.length)).map
        fun p => (p.1.map fun _ => ⟨ruleSet s.slots.size rules⟩, p.2) := by
  have hfirst : firstRepeated [] (rules.map (·.name)) = none :=
    firstRepeated_eq_none_iff.mpr ⟨hnames, by simp⟩
  have hallocate : Recording.silently (allocate rules .empty) (log, s) =
      some (ruleSet s.slots.size rules, (log, s.widened rules.length)) := by
    rw [Recording.silently, allocate_eq, Option.map_some]
    rfl
  rw [buildRecording, hfirst]
  refine (congrArg (Option.bind · _) hallocate).trans ?_
  change (fillRecording run (ruleSet s.slots.size rules) rules
    (log, s.widened rules.length)).bind _ = _
  rw [Option.map_eq_bind]
  refine Option.bind_congr fun p _ => ?_
  rcases p with ⟨_ | _, t⟩
  · rfl
  · rfl

theorem build_eq_recording (run : Grammar → Parser Engine Value) (rules : List Rule) (s : Store) :
    build run rules s = (buildRecording run rules ([], s)).map fun p => (p.1, p.2.2) := by
  cases hfirst : firstRepeated [] (rules.map (·.name)) with
  | some name =>
    rw [build, buildRecording, hfirst]
    rfl
  | none =>
    have hnames := (firstRepeated_eq_none_iff.mp hfirst).1
    rw [build_eq hnames, buildRecording_eq run [] s hnames, fill_eq_recording run _ _ [],
      Option.map_map, Option.map_map]
    rfl

/-- The slots of the rules are there to be filled before the first builder runs. -/
theorem exists_fillable (hnames : (rules.map (·.name)).Nodup) (s : Store) :
    ∀ r ∈ rules, ∃ slot, (ruleSet s.slots.size rules).slot r.name r.output = .ok slot ∧
      Fillable (s.widened rules.length) slot := by
  intro r hr
  obtain ⟨slot, hslot⟩ := exists_slot hr s.slots.size
  obtain ⟨hle, hlt⟩ := slot_bounds hslot
  exact ⟨slot, slot_ruleSet hnames hslot, _, Store.stateAt_widened_of_le hle hlt, nofun⟩

/-- A language that has been built has all its rules filled. -/
theorem fills_of_build {depth : Nat} {s t : Store} {l : Language}
    (h : build (Grammar.runWithin depth) rules s = some (.ok l, t)) : t.Fills l.rules.slots := by
  cases hfirst : firstRepeated [] (rules.map (·.name)) with
  | some name =>
    rw [build, hfirst] at h
    cases h
  | none =>
    have hnames := (firstRepeated_eq_none_iff.mp hfirst).1
    rw [build_eq hnames] at h
    obtain ⟨⟨filled, u⟩, hfill, h⟩ := Option.map_eq_some_iff.mp h
    cases filled with
    | error e => cases h
    | ok =>
      cases h
      exact fills_ruleSet hnames (fills_fill (exists_fillable hnames s) hfill)

/-- How the building of a language ends, for whatever rules. -/
theorem build_outcome (depth : Nat) (rules : List Rule) (s : Store) :
    build (Grammar.runWithin depth) rules s =
      (buildRecording (Grammar.runWithin depth) rules ([], s)).map (fun p => (p.1, p.2.2)) ∧
    (¬(rules.map (·.name)).Nodup → ∃ before r after, rules = before ++ r :: after ∧
      (before.map (·.name)).Nodup ∧ r.name ∈ before.map (·.name) ∧
      buildRecording (Grammar.runWithin depth) rules ([], s) =
        some (.error (.duplicateRule r.name), ([], s))) ∧
    ((rules.map (·.name)).Nodup → ∃ set s₀, allocate rules .empty s = some (set, s₀) ∧
      Complete rules set ∧
      ((∃ p, buildRecording (Grammar.runWithin depth) rules ([], s) = some p) ∨
        ∃ before r after u, rules = before ++ r :: after ∧
          fill (Grammar.runWithin depth) set before s₀ = some (.ok (), u) ∧
          (r.build set).perform (Grammar.runWithin depth) u = none) ∧
      ∀ result log t,
        buildRecording (Grammar.runWithin depth) rules ([], s) = some (result, (log, t)) →
          Report set rules log result ∧ ∀ l, result = .ok l → l.rules = set ∧ Ready rules l t) := by
  refine ⟨build_eq_recording _ rules s, fun hnames => ?_, fun hnames => ?_⟩
  · obtain ⟨before, r, after, hrules, hnodup, hr, hfirst⟩ := exists_first_repeated hnames
    refine ⟨before, r, after, hrules, hnodup, hr, ?_⟩
    rw [buildRecording, hfirst]
    rfl
  · have hslots := exists_fillable hnames s
    have hlookups := fun r hr => (hslots r hr).imp fun _ h => h.1
    have hrecording := buildRecording_eq (Grammar.runWithin depth) [] s hnames
    refine ⟨ruleSet s.slots.size rules, s.widened rules.length, allocate_eq rules .empty s,
      complete_ruleSet hnames _, ?_, ?_⟩
    · rw [hrecording]
      refine (exists_fillRecording hlookups []).imp ?_ id
      rintro ⟨p, hp⟩
      exact ⟨_, by rw [hp, Option.map_some]⟩
    · intro result log t h
      rw [hrecording] at h
      obtain ⟨⟨filled, log, t⟩, hfill, h⟩ := Option.map_eq_some_iff.mp h
      cases h
      obtain ⟨own, hlog, hreport⟩ := report_fillRecording hlookups hfill
      obtain rfl : log = own := hlog
      refine ⟨hreport.map _, fun l hl => ?_⟩
      cases filled with
      | error e => cases hl
      | ok =>
        cases hl
        have hfill : fill (Grammar.runWithin depth) (ruleSet s.slots.size rules) rules
            (s.widened rules.length) = some (.ok (), t) := by
          rw [fill_eq_recording _ _ _ [], hfill, Option.map_some]
        exact ⟨rfl, ready_of_bound hnames (fills_fill hslots hfill)⟩

theorem build_outcome_nestedLists :
    (∃ l log t, buildRecording (Grammar.runWithin 0) nestedLists ([], {}) =
        some (.ok l, (log, t)) ∧
      log.map (·.rule) = ["list", "item"] ∧ Ready nestedLists l t) ∧
    buildRecording (Grammar.runWithin 0) (nestedLists ++ nestedLists) ([], {}) =
      some (.error (.duplicateRule "list"), ([], {})) := by
  constructor
  · have hnames : (nestedLists.map (·.name)).Nodup := by simp [nestedLists, Rule.madeOf]
    obtain ⟨set, s₀, -, -, -, hreport⟩ := (build_outcome 0 nestedLists {}).2.2 hnames
    have hmade : ∃ l log t, buildRecording (Grammar.runWithin 0) nestedLists ([], {}) =
        some (.ok l, (log, t)) := ⟨_, _, _, rfl⟩
    obtain ⟨l, log, t, hmade⟩ := hmade
    obtain ⟨hlog, hready⟩ := hreport _ _ _ hmade
    exact ⟨l, log, t, hmade, (hlog.made_iff.mp ⟨l, rfl⟩).1, (hready l rfl).2⟩
  · have hnames : ¬((nestedLists ++ nestedLists).map (·.name)).Nodup := by
      simp [nestedLists, Rule.madeOf]
    obtain ⟨before, r, after, -, -, -, hbuild⟩ :=
      (build_outcome 0 (nestedLists ++ nestedLists) {}).2.1 hnames
    have hfirst : buildRecording (Grammar.runWithin 0) (nestedLists ++ nestedLists) ([], {}) =
        some (.error (.duplicateRule "list"), ([], {})) := rfl
    exact hbuild ▸ hfirst

end Language
end FurthestFailure
