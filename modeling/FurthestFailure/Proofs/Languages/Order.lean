import FurthestFailure.Proofs.FixedPoints
import FurthestFailure.Proofs.Languages.Assembling

/-! # The order of registration

The rules of a language may be registered in any order, if their builders only assemble. In another
order they get other slots, and this is all: the sets are renamings of each other along the slots that
belong to the same rules, so the builders make renamings of each other, and the same slots hold them.
-/
namespace FurthestFailure
set_option autoImplicit false

namespace RuleEntry

/-- What an entry says, but for the slot. -/
def heading (e : RuleEntry) : String × String := (e.name, e.output)

end RuleEntry

namespace Language
variable {rules rules' : List Rule}

/-- Every slot of the beginning for itself, and slots of the same rule for each other. -/
def sameRule (base : Nat) (rules rules' : List Rule) : Link := fun i j =>
  Link.below base i j ∨ ∃ r, (r, i) ∈ rules.zipIdx base ∧ (r, j) ∈ rules'.zipIdx base

/-- In whatever order the rules come, the entries of their set come in the same order. -/
theorem headings_eq (base : Nat) (hperm : rules.Perm rules')
    (hnames : (rules.map (·.name)).Nodup) :
    (ruleSet base rules).entries.map RuleEntry.heading =
      (ruleSet base rules').entries.map RuleEntry.heading := by
  have hnames' : (rules'.map (·.name)).Nodup := (hperm.map _).nodup_iff.mp hnames
  have hsame : ((ruleSet base rules).entries.map RuleEntry.heading).Perm
      ((ruleSet base rules').entries.map RuleEntry.heading) := by
    have hheadings : ∀ rules : List Rule, ((ruleSet base rules).entries.map RuleEntry.heading).Perm
        (rules.map fun r => (r.name, r.output)) := map_entries_perm (fun _ _ => rfl) base
    exact ((hheadings rules).trans (hperm.map _)).trans (hheadings rules').symm
  have hascending : ∀ {rs : List Rule}, (rs.map (·.name)).Nodup →
      ((ruleSet base rs).entries.map RuleEntry.heading).Pairwise fun a b => a.1 < b.1 :=
    fun h => List.pairwise_map.mpr (pairwise_ruleSet h)
  exact hsame.eq_of_pairwise (fun a b _ _ hab hba => absurd hba (lt_asymm hab))
    (hascending hnames) (hascending hnames')

theorem ruleSet_sameRule (base : Nat) (hperm : rules.Perm rules')
    (hnames : (rules.map (·.name)).Nodup) :
    (ruleSet base rules).Renamed (sameRule base rules rules') (ruleSet base rules') := by
  have hheadings := headings_eq base hperm hnames
  refine List.forall₂_iff_get.mpr ⟨by simpa using congrArg List.length hheadings, fun k hk hk' => ?_⟩
  have hsame : ((ruleSet base rules).entries.get ⟨k, hk⟩).heading =
      ((ruleSet base rules').entries.get ⟨k, hk'⟩).heading := by
    simpa [hk, hk'] using congrArg (·[k]?) hheadings
  obtain ⟨⟨r, i⟩, hr, he⟩ := mem_ruleSet_iff.mp (List.get_mem (ruleSet base rules).entries ⟨k, hk⟩)
  obtain ⟨⟨r', j⟩, hr', he'⟩ :=
    mem_ruleSet_iff.mp (List.get_mem (ruleSet base rules').entries ⟨k, hk'⟩)
  rw [← he, ← he'] at hsame ⊢
  obtain ⟨hname, houtput⟩ := Prod.mk.inj hsame
  refine ⟨hname, houtput, .inr ⟨r, hr, ?_⟩⟩
  have hmem : r ∈ rules := List.fst_mem_of_mem_zipIdx hr
  have hmem' : r' ∈ rules := hperm.mem_iff.mpr (List.fst_mem_of_mem_zipIdx hr')
  rw [List.inj_on_of_nodup_map hnames hmem hmem' hname]
  exact hr'

theorem meanAlike_sameRule {s t t' : Store} (hs : s.Scoped) (hrules : ∀ r ∈ rules, r.Assembles s)
    {set set' : RuleSet} (hset : set.Renamed (sameRule s.slots.size rules rules') set')
    (h : Filled set (rules.zipIdx s.slots.size) (s.widened rules.length) t)
    (h' : Filled set' (rules'.zipIdx s.slots.size) (s.widened rules'.length) t') :
    ∀ i j, sameRule s.slots.size rules rules' i j →
      Store.MeanAlike (sameRule s.slots.size rules rules') t t' i j := by
  rintro i j (⟨rfl, hi⟩ | ⟨r, hr, hr'⟩)
  · have halike := (hs i hi).mono (fun i j hij => (.inl hij : sameRule _ rules rules' i j))
    exact .held (halike.kept h.old h'.old)
  · obtain ⟨g, hg, hyielded⟩ := h.made _ hr
    obtain ⟨g', hg', hyielded'⟩ := h'.made _ hr'
    have hbuilds := hrules r (List.fst_mem_of_mem_zipIdx hr) (fun _ _ hij => .inl hij) hset
    exact .made hg hg' hbuilds hyielded hyielded'

/-- If no two rules have the same name and no builder does more than assemble, the rules may be
registered in any order: either no order makes a language, or all make languages with the same rules,
the same answers and parsers that end alike. -/
theorem build_perm {s : Store} (hs : s.Scoped) (run : Grammar → Parser Engine Value)
    (hnames : (rules.map (·.name)).Nodup) (hrules : ∀ r ∈ rules, r.Assembles s)
    (hperm : rules.Perm rules') :
    ∃ result t result' t', build run rules s = some (result, t) ∧
      build run rules' s = some (result', t') ∧
      ((∃ l, result = .ok l) ↔ ∃ l, result' = .ok l) ∧
      ∀ l l', result = .ok l → result' = .ok l' →
        l.rules.names = l'.rules.names ∧ l.rules.names.Pairwise (· < ·) ∧
        ∀ name output,
          (∃ e, l.get name output = .error e ∧ l'.get name output = .error e) ∨
          ∃ p p', l.get name output = .ok p ∧ l'.get name output = .ok p' ∧ p.EndsAs t p' t' := by
  have hnames' : (rules'.map (·.name)).Nodup := (hperm.map _).nodup_iff.mp hnames
  have hrules' : ∀ r ∈ rules', r.Assembles s := fun r hr => hrules r (hperm.mem_iff.mpr hr)
  have hset := ruleSet_sameRule s.slots.size hperm hnames
  obtain ⟨result, t, hbuild, hfilled, hok⟩ := exists_build run hs hnames hrules
  obtain ⟨result', t', hbuild', hfilled', hok'⟩ := exists_build run hs hnames' hrules'
  refine ⟨result, t, result', t', hbuild, hbuild', ?_, ?_⟩
  · have hmakes : ∀ r ∈ rules, ((r.build (ruleSet s.slots.size rules)).Makes ↔
        (r.build (ruleSet s.slots.size rules')).Makes) :=
      fun r hr => Assembly.makes_congr (hrules r hr (fun _ _ hij => .inl hij) hset)
    rw [hok, hok']
    exact ⟨fun h r hr => (hmakes r (hperm.mem_iff.mpr hr)).mp (h r (hperm.mem_iff.mpr hr)),
      fun h r hr => (hmakes r hr).mpr (h r (hperm.mem_iff.mp hr))⟩
  · intro l l' hl hl'
    obtain ⟨rfl, hfilled⟩ := hfilled l hl
    obtain ⟨rfl, hfilled'⟩ := hfilled' l' hl'
    have hmean := meanAlike_sameRule hs hrules hset hfilled hfilled'
    have hnamesEq := congrArg (List.map Prod.fst) (headings_eq s.slots.size hperm hnames)
    rw [List.map_map, List.map_map] at hnamesEq
    refine ⟨hnamesEq, List.pairwise_map.mpr (pairwise_ruleSet hnames), fun name output => ?_⟩
    rcases hset.slot name output with ⟨e, h, h'⟩ | ⟨i, j, h, h', hij⟩
    · exact .inl ⟨e, get_of_slot_error h, get_of_slot_error h'⟩
    · refine .inr ⟨_, _, get_of_slot h, get_of_slot h', ?_⟩
      obtain ⟨hi, hj⟩ := (hmean i j hij).exists_stateAt
      refine Grammar.endsAs_of_alike hfilled.isScoped (Grammar.scopes_handle hi.choose_spec _ _)
        hfilled'.isScoped (Grammar.scopes_handle hj.choose_spec _ _) fun n => ?_
      exact Grammar.anewWithin_alike n hmean ⟨j, rfl, hij⟩

theorem build_perm_nestedLists :
    ∃ l t l' t', build Grammar.run nestedLists {} = some (.ok l, t) ∧
      build Grammar.run nestedLists.reverse {} = some (.ok l', t') ∧
      l.rules.names = l'.rules.names ∧ l.rules.names.Pairwise (· < ·) ∧
      ∀ name output,
        (∃ e, l.get name output = .error e ∧ l'.get name output = .error e) ∨
        ∃ p p', l.get name output = .ok p ∧ l'.get name output = .ok p' ∧ p.EndsAs t p' t' := by
  have hnames : (nestedLists.map (·.name)).Nodup := by simp [nestedLists, Rule.madeOf]
  obtain ⟨result, t, result', t', hbuild, hbuild', -, hsame⟩ := build_perm Store.scoped_empty
    Grammar.run hnames (nestedLists_assemble {}) (List.reverse_perm nestedLists).symm
  have hmade : ∃ l u, build Grammar.run nestedLists {} = some (.ok l, u) := ⟨_, _, rfl⟩
  have hmade' : ∃ l u, build Grammar.run nestedLists.reverse {} = some (.ok l, u) := ⟨_, _, rfl⟩
  obtain ⟨l, _, hmade⟩ := hmade
  obtain ⟨l', _, hmade'⟩ := hmade'
  rw [hmade] at hbuild
  rw [hmade'] at hbuild'
  cases hbuild
  cases hbuild'
  exact ⟨l, t, l', t', hmade, hmade', hsame l l' rfl rfl⟩

end Language
end FurthestFailure
