import FurthestFailure.Proofs.Languages.Building
import FurthestFailure.Proofs.Ownership.Runs

/-! # Sessions that own nothing but what is alive

What a session names owns nothing but slots that are alive, and no honest operation on it changes that:
what is assembled owns what was named before or made on the way.
-/
namespace FurthestFailure
set_option autoImplicit false

namespace Session

/-- What can be asked of a session. -/
inductive Operation where
  | bind (name : String) (a : Assembly)
  | parse (a : Assembly) (cursors : List Cursor)
  | newReference (name label : String)
  | handle (reference name : String)
  | define (reference name : String) (a : Assembly)
  | drop (name : String)
  | buildLanguage (name : String) (rules : List Rule)
  | copyLanguage (language name : String)
  | getRule (language rule output name : String)
  | getNode (language rule output name : String)

namespace Operation

def step : Operation → SessionStep Unit
  | bind name a => SessionStep.bind name a
  | parse a cursors => SessionStep.parse a fun p => cursors.forM fun c => do let _ ← p c
  | newReference name label => SessionStep.newReference name label
  | handle reference name => SessionStep.handle reference name
  | define reference name a => SessionStep.define reference name a
  | drop name => do let _ ← SessionStep.drop name
  | buildLanguage name rules => do let _ ← SessionStep.buildLanguage name rules
  | copyLanguage language name => do
    let l ← SessionStep.language language
    modify fun s => { s with languages := (name, l) :: eraseName name s.languages }
  | getRule language rule output name => SessionStep.getRule language rule output name
  | getNode language rule output name => SessionStep.getNode language rule output name

/-- What the operation assembles owns what is `held`, or what it has made itself. -/
def Honest (held : Set Nat) : Operation → Prop
  | bind _ a | parse a _ | define _ _ a => a.Honest held
  | buildLanguage _ rules => ∀ r ∈ rules, ∀ set, (r.build set).Honest held
  | newReference _ _ | handle _ _ | drop _ | copyLanguage _ _ | getRule _ _ _ _
  | getNode _ _ _ _ => True

theorem Honest.mono {A B : Set Nat} (h : A ⊆ B) : ∀ {op : Operation}, op.Honest A → op.Honest B
  | .bind _ _, ha | .parse _ _, ha | .define _ _ _, ha => Assembly.Honest.mono h ha
  | .buildLanguage _ _, hrules => fun r hr set => (hrules r hr set).mono h
  | .newReference _ _, _ | .handle _ _, _ | .drop _, _ | .copyLanguage _ _, _ | .getRule _ _ _ _, _
  | .getNode _ _ _ _, _ => trivial

end Operation

/-- The slots `L` are those that are alive, nothing in the session owns any other, and the rules of its
languages are all filled. -/
structure Within (L : Set Nat) (s : Session) : Prop where
  living : s.store.living = L
  store : s.store.Within L
  scope : ∀ p ∈ s.scope.bindings, p.2.Within L
  references : ∀ p ∈ s.references, p.2.slot ∈ L
  languages : ∀ p ∈ s.languages, s.store.Fills p.2.rules.slots

/-- The session goes on within the slots, by actions on its store and by naming. -/
structure Goes (L : Set Nat) (s s' : Session) : Prop where
  within : s'.Within L
  log : ∃ log, (∀ y ∈ log, Action.Within L y) ∧ s'.store = s.store.replay log

end Session

theorem Store.Fills.replay {slots : List Nat} {s : Store} (h : s.Fills slots) (log : List Action) :
    (s.replay log).Fills slots := by
  induction log generalizing s with
  | nil => exact h
  | cons x log ih =>
    refine ih ?_
    have hlasting := lasting_fills slots
    cases x with
    | enter slot =>
      intro i hi
      rw [Action.stateAt_after_enter]
      exact h i hi
    | make slot => exact hlasting.push h (SlotState.everywhere_true _)
    | define slot g | finish slot g => exact hlasting.defined slot h g.everywhere_true
    | publish name g => exact h

theorem Store.Fills.living {slots : List Nat} {s : Store} (h : s.Fills slots) {i : Nat}
    (hi : i ∈ slots) : i ∈ s.living := by
  obtain ⟨_, hst, g, rfl⟩ := h i hi
  simp [Store.living, hst]

namespace Session
variable {L : Set Nat} {s s' s'' : Session} {α : Type}

theorem Goes.refl (hs : s.Within L) : Goes L s s := ⟨hs, [], nofun, rfl⟩

theorem Goes.trans (h : Goes L s s') (h' : Goes L s' s'') : Goes L s s'' := by
  obtain ⟨log, hlog, hs'⟩ := h.log
  obtain ⟨log', hlog', hs''⟩ := h'.log
  refine ⟨h'.within, log ++ log', List.forall_mem_append.mpr ⟨hlog, hlog'⟩, ?_⟩
  rw [Store.replay_append, ← hs', hs'']

theorem Goes.engine (hs : s.Within L) {post : α → Prop} {x : Engine α} (hx : Honestly L post x)
    {a : α} {t : Store} (h : x s.store = some (a, t)) :
    post a ∧ Goes L s { s with store := t } := by
  obtain ⟨hpost, log, hlog, rfl⟩ := hx s.store hs.living hs.store a t h
  obtain ⟨hliving, hstore⟩ := Store.replay_within hs.living hs.store hlog
  refine ⟨hpost, ⟨hliving, hstore, hs.scope, hs.references, fun p hp => ?_⟩, log, hlog, rfl⟩
  exact (hs.languages p hp).replay log

end Session

namespace SessionStep
variable {α β : Type} {s s' : Session}

theorem run_bind {x : SessionStep α} {f : α → SessionStep β} {r : Except GrammarError β}
    (h : (x >>= f).run s = some (r, s')) :
    (∃ e, x.run s = some (.error e, s') ∧ r = .error e) ∨
      ∃ a t, x.run s = some (.ok a, t) ∧ (f a).run t = some (r, s') := by
  obtain ⟨⟨a, t⟩, ha, h⟩ := Option.bind_eq_some_iff.mp h
  cases a with
  | error e =>
    cases h
    exact .inl ⟨e, ha, rfl⟩
  | ok a => exact .inr ⟨a, t, ha, h⟩

theorem run_engine {x : Engine α} {r : Except GrammarError α} (h : (engine x).run s = some (r, s')) :
    ∃ a t, x s.store = some (a, t) ∧ r = .ok a ∧ s' = { s with store := t } := by
  obtain ⟨⟨a, t⟩, ha, h⟩ := Option.bind_eq_some_iff.mp h
  cases h
  exact ⟨a, t, ha, rfl, rfl⟩

theorem run_ofExcept {x r : Except GrammarError α} (h : (ofExcept x).run s = some (r, s')) :
    r = x ∧ s' = s := by
  cases x with
  | ok a =>
    cases h
    exact ⟨rfl, rfl⟩
  | error e =>
    cases h
    exact ⟨rfl, rfl⟩

theorem run_named {name : String} {x : Option α} {r : Except GrammarError α}
    (h : (named name x).run s = some (r, s')) : s' = s ∧ ∀ a, r = .ok a → x = some a := by
  cases x with
  | some a =>
    cases h
    exact ⟨rfl, by rintro _ ⟨rfl⟩; rfl⟩
  | none =>
    cases h
    exact ⟨rfl, nofun⟩

end SessionStep

namespace Session
variable {L : Set Nat} {s s' : Session} {α : Type}

/-- What the session names is alive. -/
theorem Within.held (hs : s.Within L) : {i | i ∈ s.roots} ⊆ L := by
  intro i hi
  rcases List.mem_append.mp hi with hi | hi
  · rcases List.mem_append.mp hi with hi | hi
    · obtain ⟨p, hp, hi⟩ := List.mem_flatMap.mp hi
      exact (hs.scope p hp).owned i hi
    · obtain ⟨p, hp, rfl⟩ := List.mem_map.mp hi
      exact hs.references p hp
  · obtain ⟨p, hp, hi⟩ := List.mem_flatMap.mp hi
    rw [← hs.living]
    exact (hs.languages p hp).living hi

theorem honestly_perform {a : Assembly} (ha : a.Honest L) :
    Honestly L (fun r => ∀ g, r = .ok g → g.Within L) (a.perform Grammar.run) :=
  Honestly.perform Honestly.run ha

theorem Goes.assemble (hs : s.Within L) {a : Assembly} (ha : a.Honest L)
    {r : Except GrammarError Grammar} (h : (SessionStep.assemble a).run s = some (r, s')) :
    Goes L s s' ∧ ∀ g, r = .ok g → g.Within L := by
  rcases SessionStep.run_bind h with ⟨e, he, -⟩ | ⟨made, t, hmade, h⟩
  · obtain ⟨_, _, -, heq, -⟩ := SessionStep.run_engine he
    cases heq
  · obtain ⟨_, u, hr, ⟨⟩, rfl⟩ := SessionStep.run_engine hmade
    obtain ⟨rfl, rfl⟩ := SessionStep.run_ofExcept h
    obtain ⟨hpost, hgoes⟩ := Goes.engine hs (honestly_perform ha) hr
    exact ⟨hgoes, hpost⟩

/-- Naming a grammar. -/
theorem Within.bindGrammar (hs : s.Within L) (name : String) {g : Grammar} (hg : g.Within L) :
    Within L { s with scope := s.scope.bind name g } where
  living := hs.living
  store := hs.store
  scope := by
    refine List.forall_mem_cons.mpr ⟨hg, fun p hp => hs.scope p ?_⟩
    exact (List.mem_filter.mp hp).1
  references := hs.references
  languages := hs.languages

theorem Goes.bindGrammar (hs : s.Within L) {name : String} {g : Grammar} (hg : g.Within L)
    {r : Except GrammarError Unit} (h : (SessionStep.bindGrammar name g).run s = some (r, s')) :
    Goes L s s' := by
  cases h
  exact ⟨hs.bindGrammar name hg, [], nofun, rfl⟩

theorem Goes.bind (hs : s.Within L) {name : String} {a : Assembly} (ha : a.Honest L)
    {r : Except GrammarError Unit} (h : (SessionStep.bind name a).run s = some (r, s')) :
    Goes L s s' := by
  rcases SessionStep.run_bind h with ⟨e, he, -⟩ | ⟨g, t, hg, h⟩
  · exact (Goes.assemble hs ha he).1
  · obtain ⟨hgoes, hwithin⟩ := Goes.assemble hs ha hg
    exact hgoes.trans (Goes.bindGrammar hgoes.within (hwithin g rfl) h)

theorem honestly_forM {g : Grammar} (hg : g.Within L) (cursors : List Cursor) :
    Honestly L (fun _ => True) (cursors.forM fun c => do let _ ← g.run c) := by
  induction cursors with
  | nil => exact Honestly.pure trivial
  | cons c cursors ih =>
    have hrun : Honestly L (fun _ => True) (do let _ ← g.run c) :=
      Honestly.bind (Honestly.run hg.runs c) fun _ _ => Honestly.pure trivial
    exact Honestly.bind hrun fun _ _ => ih

theorem Goes.parse (hs : s.Within L) {cursors : List Cursor} {a : Assembly} (ha : a.Honest L)
    {r : Except GrammarError Unit} (h : (Operation.parse a cursors).step.run s = some (r, s')) :
    Goes L s s' := by
  rcases SessionStep.run_bind h with ⟨e, he, -⟩ | ⟨g, t, hg, h⟩
  · exact (Goes.assemble hs ha he).1
  · obtain ⟨hgoes, hwithin⟩ := Goes.assemble hs ha hg
    obtain ⟨_, u, hr, -, rfl⟩ := SessionStep.run_engine h
    exact hgoes.trans (Goes.engine hgoes.within (honestly_forM (hwithin g rfl) cursors) hr).2

theorem Within.eraseReference (hs : s.Within L) (name : String) :
    Within L { s with references := eraseName name s.references } where
  living := hs.living
  store := hs.store
  scope := hs.scope
  references p hp := hs.references p (List.mem_filter.mp hp).1
  languages := hs.languages

theorem honestly_allocate : Honestly L (· ∈ L) (Store.allocate { state := .unfilled }) := by
  intro s hL hs slot s' h
  obtain ⟨rfl, rfl⟩ : slot = s.slots.size ∧ s' = s.replay [.make fun _ => { state := .unfilled }] := by
    cases h
    exact ⟨rfl, rfl⟩
  refine ⟨hL ▸ Store.size_mem_living, _, List.forall_mem_singleton.mpr ?_, rfl⟩
  exact fun _ _ => ⟨.unfilled none, nofun⟩

theorem Goes.newReference (hs : s.Within L) {name label : String} {r : Except GrammarError Unit}
    (h : (SessionStep.newReference name label).run s = some (r, s')) : Goes L s s' := by
  rcases SessionStep.run_bind h with ⟨e, he, -⟩ | ⟨slot, t, hslot, h⟩
  · obtain ⟨_, _, -, heq, -⟩ := SessionStep.run_engine he
    cases heq
  · obtain ⟨_, u, hr, ⟨⟩, rfl⟩ := SessionStep.run_engine hslot
    obtain ⟨hsize, hgoes⟩ := Goes.engine hs honestly_allocate hr
    cases h
    have herased := (hgoes.within.eraseReference name).references
    refine hgoes.trans ⟨{ hgoes.within with references := ?_ }, [], nofun, rfl⟩
    exact List.forall_mem_cons.mpr ⟨hsize, herased⟩

theorem mem_of_lookup {β : Type} {name : String} {b : β} {named : List (String × β)}
    (h : named.lookup name = some b) : (name, b) ∈ named := by
  obtain ⟨before, after, rfl, -⟩ := List.lookup_eq_some_iff.mp h
  exact List.mem_append_right _ (.head _)

theorem run_reference {name : String} {r : Except GrammarError Reference}
    (h : (SessionStep.reference name).run s = some (r, s')) :
    s' = s ∧ ∀ a, r = .ok a → (name, a) ∈ s.references := by
  obtain ⟨rfl, hfound⟩ := SessionStep.run_named h
  exact ⟨rfl, fun a ha => mem_of_lookup (hfound a ha)⟩

theorem run_language {name : String} {r : Except GrammarError Language}
    (h : (SessionStep.language name).run s = some (r, s')) :
    s' = s ∧ ∀ l, r = .ok l → (name, l) ∈ s.languages := by
  obtain ⟨rfl, hfound⟩ := SessionStep.run_named h
  exact ⟨rfl, fun a ha => mem_of_lookup (hfound a ha)⟩

/-- A handle owns nothing. -/
theorem within_handle (slot : Nat) (label : String) : (Grammar.handle slot label).Within L where
  owned := by simp [Grammar.owned]
  honest := trivial

theorem within_holding {slots : List Nat} (h : ∀ i ∈ slots, i ∈ L) (slot : Nat) (label : String) :
    (Grammar.holding slots (.handle slot label)).Within L where
  owned i hi := h i (by simpa [Grammar.owned] using hi)
  honest := trivial

theorem Goes.handle (hs : s.Within L) {reference name : String} {r : Except GrammarError Unit}
    (h : (SessionStep.handle reference name).run s = some (r, s')) : Goes L s s' := by
  rcases SessionStep.run_bind h with ⟨e, he, -⟩ | ⟨a, t, ha, hname⟩
  · obtain ⟨rfl, -⟩ := run_reference he
    exact .refl hs
  · obtain ⟨rfl, -⟩ := run_reference ha
    exact Goes.bindGrammar hs (within_handle a.slot a.label) hname

theorem honestly_define (slot : Nat) {g : Grammar} (hg : g.Within L) :
    Honestly L (fun _ => True) (Store.define slot g) := by
  intro s hL hs r s' h
  rw [Store.define_eq] at h
  cases h
  exact ⟨trivial, [.define slot g], List.forall_mem_singleton.mpr hg, rfl⟩

theorem Goes.define (hs : s.Within L) {reference name : String} {a : Assembly} (ha : a.Honest L)
    {r : Except GrammarError Unit} (h : (SessionStep.define reference name a).run s = some (r, s')) :
    Goes L s s' := by
  rcases SessionStep.run_bind h with ⟨e, he, -⟩ | ⟨g, t, hg, hrest⟩
  · exact (Goes.assemble hs ha he).1
  obtain ⟨hgoes, hwithin⟩ := Goes.assemble hs ha hg
  refine hgoes.trans ?_
  rcases SessionStep.run_bind hrest with ⟨e, he, -⟩ | ⟨⟨slot, label⟩, u, hr, hdefine⟩
  · obtain ⟨rfl, -⟩ := run_reference he
    exact .refl hgoes.within
  obtain ⟨rfl, hfound⟩ := run_reference hr
  have hmem := hfound _ rfl
  have hslot : ∀ i ∈ [slot], i ∈ L := List.forall_mem_singleton.mpr (hgoes.within.references _ hmem)
  have herased := hgoes.within.eraseReference reference
  rcases SessionStep.run_bind hdefine with ⟨e, he, -⟩ | ⟨_, w, herase, hname⟩
  · cases he
  cases herase
  rcases SessionStep.run_bind hname with ⟨e, he, -⟩ | ⟨taken, v, htaken, hname⟩
  · obtain ⟨_, _, -, heq, -⟩ := SessionStep.run_engine he
    cases heq
  obtain ⟨_, _, hstore, -, rfl⟩ := SessionStep.run_engine htaken
  obtain ⟨-, hdefined⟩ := Goes.engine herased (honestly_define slot (hwithin g rfl)) hstore
  have hnamed := Goes.bindGrammar hdefined.within (within_holding hslot slot label) hname
  have hfirst : Goes L u _ := ⟨herased, [], nofun, rfl⟩
  exact hfirst.trans (hdefined.trans hnamed)

theorem Goes.drop (hs : s.Within L) {name : String} {r : Except GrammarError Unit}
    (h : (Operation.drop name).step.run s = some (r, s')) : Goes L s s' := by
  cases h
  refine ⟨⟨hs.living, hs.store, fun p hp => ?_, fun p hp => ?_, fun p hp => ?_⟩, [], nofun, rfl⟩
  · exact hs.scope p (List.mem_filter.mp hp).1
  · exact hs.references p (List.mem_filter.mp hp).1
  · exact hs.languages p (List.mem_filter.mp hp).1

theorem honestly_allocateRules (rules : List Rule) {set : RuleSet} :
    Honestly L (fun _ => True) (Language.allocate rules set) := by
  induction rules generalizing set with
  | nil => exact Honestly.pure trivial
  | cons r rs ih => exact Honestly.bind honestly_allocate fun _ _ => ih

theorem honestly_fill {set : RuleSet} {rules : List Rule} (h : ∀ r ∈ rules, (r.build set).Honest L) :
    Honestly L (fun _ => True) (Language.fill Grammar.run set rules) := by
  induction rules with
  | nil => exact Honestly.pure trivial
  | cons r rs ih =>
    obtain ⟨hr, hrs⟩ := List.forall_mem_cons.mp h
    rw [Language.fill]
    cases set.slot r.name r.output with
    | error e => exact Honestly.pure trivial
    | ok slot =>
      refine Honestly.bind (honestly_perform hr) fun made hmade => ?_
      cases made with
      | error e => exact Honestly.pure trivial
      | ok g => exact Honestly.bind (honestly_define slot (hmade g rfl)) fun _ _ => ih hrs

theorem honestly_build {rules : List Rule} (h : ∀ r ∈ rules, ∀ set, (r.build set).Honest L) :
    Honestly L (fun _ => True) (Language.build Grammar.run rules) := by
  rw [Language.build]
  split
  · exact Honestly.pure trivial
  · refine Honestly.bind (honestly_allocateRules rules) fun set _ => ?_
    refine Honestly.bind (honestly_fill fun r hr => h r hr set) fun filled _ => ?_
    cases filled with
    | error e => exact Honestly.pure trivial
    | ok => exact Honestly.pure trivial

theorem Within.bindLanguage (hs : s.Within L) (name : String) {l : Language}
    (hl : s.store.Fills l.rules.slots) :
    Within L { s with languages := (name, l) :: eraseName name s.languages } where
  living := hs.living
  store := hs.store
  scope := hs.scope
  references := hs.references
  languages := List.forall_mem_cons.mpr ⟨hl, fun p hp => hs.languages p (List.mem_filter.mp hp).1⟩

theorem Goes.buildLanguage (hs : s.Within L) {name : String} {rules : List Rule}
    (hrules : ∀ r ∈ rules, ∀ set, (r.build set).Honest L) {r : Except GrammarError Unit}
    (h : (Operation.buildLanguage name rules).step.run s = some (r, s')) : Goes L s s' := by
  suffices hbuild : ∀ {r}, (SessionStep.buildLanguage name rules).run s = some (r, s') → Goes L s s' by
    rcases SessionStep.run_bind h with ⟨e, he, -⟩ | ⟨l, t, hl, hdone⟩
    · exact hbuild he
    · cases hdone
      exact hbuild hl
  intro r h
  rcases SessionStep.run_bind h with ⟨e, he, -⟩ | ⟨result, t, hresult, hrest⟩
  · obtain ⟨_, _, -, heq, -⟩ := SessionStep.run_engine he
    cases heq
  obtain ⟨_, u, hbuilt, ⟨⟩, rfl⟩ := SessionStep.run_engine hresult
  obtain ⟨-, hgoes⟩ := Goes.engine hs (honestly_build hrules) hbuilt
  rcases SessionStep.run_bind hrest with ⟨e, he, -⟩ | ⟨l, v, hl, hname⟩
  · obtain ⟨-, rfl⟩ := SessionStep.run_ofExcept he
    exact hgoes
  obtain ⟨rfl, rfl⟩ := SessionStep.run_ofExcept hl
  cases hname
  exact hgoes.trans ⟨hgoes.within.bindLanguage name (Language.fills_of_build hbuilt), [], nofun, rfl⟩

theorem Goes.copyLanguage (hs : s.Within L) {language name : String} {r : Except GrammarError Unit}
    (h : (Operation.copyLanguage language name).step.run s = some (r, s')) : Goes L s s' := by
  rcases SessionStep.run_bind h with ⟨e, he, -⟩ | ⟨l, t, hl, hname⟩
  · obtain ⟨rfl, -⟩ := run_language he
    exact .refl hs
  · obtain ⟨rfl, hfound⟩ := run_language hl
    have hmem := hfound l rfl
    cases hname
    exact ⟨hs.bindLanguage name (hs.languages _ hmem), [], nofun, rfl⟩

end Session
end FurthestFailure
