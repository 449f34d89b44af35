import FurthestFailure.Proofs.Depth
import FurthestFailure.Proofs.EntryPoints
import FurthestFailure.Proofs.Termination.Onward

/-! # Whatever fails says what was expected

Each leaf that fails leaves a label, and no combinator takes the last label from a trail: a merge
keeps the labels of at least one side, and a description puts its own label for those it replaces.
So no trail of a run is without labels, whether the run fails or not, and neither is a diagnostic.
-/
namespace FurthestFailure
set_option autoImplicit false

/-- The order of texts by their code points. -/
def Text.Precedes (a b : String) : Prop := a.toList.map Char.toNat < b.toList.map Char.toNat

/-- There is a label, and the labels ascend by their code points, so that none comes twice. -/
structure Informs (labels : List String) : Prop where
  nonempty : labels ≠ []
  ascending : labels.Pairwise Text.Precedes
  nodup : labels.Nodup

theorem Text.precedes_of_lt {a b : String} (h : a < b) : Precedes a b :=
  List.map_lt (fun _ _ hxy => hxy) h

theorem Labels.nodup (s : Labels) : s.toList.Nodup := by
  refine s.ascending.imp fun {a b} hab heq => ?_
  rw [heq] at hab
  exact String.lt_irrefl b hab

theorem Labels.informs {s : Labels} {label : String} (h : label ∈ s) : Informs s.toList where
  nonempty := List.ne_nil_of_mem h
  ascending := s.ascending.imp Text.precedes_of_lt
  nodup := s.nodup

/-- Some label is expected. -/
def Trail.Tells (t : Trail) : Prop := ∃ label, label ∈ t.expected

namespace Trail
variable {a b : Trail}

theorem tells_failure (p : Position) (label : String) : (failure p label).Tells :=
  ⟨label, Labels.mem_single.mpr rfl⟩

theorem Tells.merge (ha : a.Tells) (hb : b.Tells) : (a.merge b).Tells := by
  rw [Trail.merge]
  split
  · exact hb
  · split
    · exact ha
    · obtain ⟨label, hlabel⟩ := ha
      exact ⟨label, Labels.mem_union.mpr (.inl hlabel)⟩

theorem Tells.informs (h : a.Tells) : Informs a.report.expected := by
  obtain ⟨label, hlabel⟩ := h
  exact Labels.informs hlabel

/-- If there is a trail, it says what was expected. -/
def Tells? (a : Option Trail) : Prop := ∀ t, a = some t → t.Tells

theorem tells?_none : Tells? none := nofun

theorem tells?_some (h : a.Tells) : Tells? (some a) := by
  rintro _ ⟨⟩
  exact h

theorem Tells?.merge? {a b : Option Trail} (ha : Tells? a) (hb : Tells? b) :
    Tells? (Trail.merge? a b) := by
  cases a with
  | none =>
    rw [none_merge?]
    exact hb
  | some a =>
    cases b with
    | none => exact ha
    | some b => exact tells?_some ((ha a rfl).merge (hb b rfl))

end Trail

namespace Outcome
variable {α : Type} {o : Outcome α}

def Tells (o : Outcome α) : Prop := Trail.Tells? o.trail?

theorem tells_fail (c : Cursor) (label : String) : (c.fail label : Outcome α).Tells :=
  Trail.tells?_some (Trail.tells_failure _ _)

end Outcome

theorem Leaf.tells_of_library {l : Leaf} (hl : l.IsLibrary) (c : Cursor) : (l.run c).Tells := by
  rcases run_cases hl c with ⟨matched, v, _, he⟩ | he
  · rw [he]
    exact Trail.tells?_none
  · rw [he]
    exact Outcome.tells_fail c _

theorem Leaf.tells {l : Leaf} (hl : l.IsOwn) (c : Cursor) : (l.run c).Tells := by
  cases l with
  | custom => exact hl.elim
  | pattern p group =>
    rw [run, patternAt]
    cases p.find? c.rest with
    | none => exact Outcome.tells_fail c _
    | some f => exact Trail.tells?_none
  | _ =>
    refine tells_of_library ?_ c
    trivial

/-- Leaves are those of the library; a pattern may match anywhere. -/
def Grammar.HasOwnLeaves : Grammar → Prop
  | .leaf l => l.IsOwn
  | _ => True

namespace Correspondence

/-- A run beside itself, where all trails that are left say what was expected. -/
def telling : Correspondence Store Store where
  cursors := Eq
  ready s t := s = t ∧ s.Everywhere Grammar.HasOwnLeaves
  stretch _ _ s t a b := (s = t ∧ s.Everywhere Grammar.HasOwnLeaves) ∧ a = b ∧ Trail.Tells? a
  stay h := ⟨h, rfl, Trail.tells?_none⟩
  ready_after h := h.1
  join h h' := ⟨h'.1, by rw [h.2.1, h'.2.1], h.2.2.merge? h'.2.2⟩
  none_iff h := by rw [h.2.1]
  still_iff := @Cursor.still_iff_of_eq
  shorter := @Cursor.shorter_of_eq

theorem telling_permissive : telling.Permissive where
  fail label hcd hs := ⟨hs, by rw [hcd], Outcome.tells_fail (α := Unit) _ label⟩
  drop h := ⟨h.1, rfl, Trail.tells?_none⟩
  relabel label h :=
    ⟨h.1, by rw [Option.some.inj h.2.1], Trail.tells?_some (Trail.tells_failure _ label)⟩
  matched h h' := by rw [h, h']

theorem telling_leaf {l : Leaf} (hl : l.IsOwn) :
    telling.Agree Eq (fun c => pure (l.run c)) fun c => pure (l.run c) := by
  rintro c _ rfl s t hst
  have ht := l.tells hl c
  refine leave ⟨hst, rfl, ht⟩ ?_
  cases l.run c with
  | success => exact .success rfl rfl
  | failure => exact .failure

end Correspondence

namespace Grammar
open Correspondence

theorem runWithin_telling {g : Grammar} (hg : g.Everywhere HasOwnLeaves) (depth : Nat) :
    telling.Agree Eq (g.runWithin depth) (g.runWithin depth) := by
  induction depth generalizing g with
  | zero => exact fun _ _ _ _ _ _ => Follows.none
  | succ depth ih =>
    have hsame : ∀ g, g.Everywhere HasOwnLeaves →
        (same (Store.Everywhere HasOwnLeaves)).Agree Eq (runWithin depth g) (runWithin depth g) :=
      fun g hg => runWithin_agree Store.lasting_everywhere hg (Nat.le_refl _)
    have hpos : ∀ {c d}, telling.cursors c d → c.position = d.position :=
      fun h => congrArg Cursor.position h
    have hquiet : telling.Quiet (Store.Everywhere HasOwnLeaves) :=
      ⟨id, fun h => ⟨h, rfl, Trail.tells?_none⟩⟩
    rw [runWithin]
    cases g with
    | leaf l => exact telling_leaf hg
    | mark g => exact agree_mark hpos (ih hg.2)
    | node g name => exact agree_node hpos (ih hg.2) name
    | _ =>
      exact telling_permissive.agree_parser (fun g hg => ih hg)
        (fun slot s t h => hquiet.enter_follows Store.lasting_everywhere hsame slot h)
        (fun a ha s t h => hquiet.performed_follows Store.lasting_everywhere hsame ha h) hg
        (by simp) (by simp) (by simp)

theorem tells_of_runWithin {g : Grammar} (hg : g.Everywhere HasOwnLeaves) {store : Store}
    (hs : store.Everywhere HasOwnLeaves) {depth : Nat} {c : Cursor} {o : Outcome Value}
    {final : Store} (h : g.runWithin depth c store = some (o, final)) : o.Tells := by
  obtain ⟨_, _, ⟨_, _, htells⟩, _⟩ := runWithin_telling hg depth rfl ⟨rfl, hs⟩ h
  exact htells

end Grammar

namespace Outcome
variable {α : Type} {o : Outcome α}

theorem Tells.under (h : o.Tells) (settings : Settings) : (o.under settings).Tells := by
  intro t ht
  rcases trail_of_under ht with ho | ⟨s, rfl, hmerge⟩
  · exact h t ho
  · exact h.merge? (Trail.tells?_some (Trail.tells_failure _ _)) t hmerge

end Outcome

theorem Diagnostic.exists_help {labels : List String} (h : labels ≠ []) :
    ∃ help, helpFor labels = some help := by
  rcases labels with _ | ⟨label, _ | ⟨other, labels⟩⟩
  · exact absurd rfl h
  · exact ⟨_, rfl⟩
  · exact ⟨_, rfl⟩

namespace Grammar

/-- All that fails, with whatever settings, and all that succeeds with a trail, says what was expected. A
diagnostic says the same as the failure that it is made of, and helps. -/
theorem failures_inform {g : Grammar} (hg : g.Everywhere HasOwnLeaves) {store : Store}
    (hs : store.Everywhere HasOwnLeaves) (depth : Nat) :
    (∀ c o final, g.runWithin depth c store = some (o, final) →
      ∀ t, o.trail? = some t → Informs t.report.expected) ∧
    ∀ settings text,
      (∀ o final, Parser.parseWith (g.runWithin depth) settings text store = some (o, final) →
        ∀ t, o.trail? = some t → Informs t.report.expected) ∧
      ∀ e final, Parser.tryParse (g.runWithin depth) settings text store = some (.error e, final) →
        Informs e.expected ∧ (∃ help, e.help = some help) ∧
          ∃ t, Parser.parseWith (g.runWithin depth) settings text store = some (.failure t, final) ∧
            e.report = t.report := by
  have hparsed : ∀ settings text o final,
      Parser.parseWith (g.runWithin depth) settings text store = some (o, final) → o.Tells := by
    intro settings text o final h
    obtain ⟨o', ho', rfl⟩ := Parser.parseWith_eq_some_iff.mp h
    exact (tells_of_runWithin hg hs ho').under settings
  refine ⟨fun c o final h t ht => (tells_of_runWithin hg hs h t ht).informs, fun settings text => ⟨?_, ?_⟩⟩
  · intro o final h t ht
    exact (hparsed settings text o final h t ht).informs
  · intro e final h
    obtain ⟨t, ht, rfl⟩ := Parser.tryParse_error_iff.mp h
    have hinforms := (hparsed settings text _ final ht t rfl).informs
    exact ⟨hinforms, Diagnostic.exists_help hinforms.nonempty, t, ht, rfl⟩

/-- Nothing to choose from, a handle of each kind that leads nowhere, and a letter at the end. -/
def openEnded : Grammar :=
  .choice [.choice [], .handle 0 "rule", .describe (.handle 1 "gone") "a name",
    .sequence [.leaf (.literal "é"), .notFollowedBy (.leaf .anyChar)]]

def unfilledAndReleased : Store := { slots := #[{ state := .unfilled }, { state := .released }] }

theorem failures_inform_openEnded :
    openEnded.Everywhere HasOwnLeaves ∧ unfilledAndReleased.Everywhere HasOwnLeaves ∧
      ∃ e final, Parser.tryParse (openEnded.runWithin 5) {} ['b'] unfilledAndReleased =
          some (.error e, final) ∧
        e.expected = ["'é'", "a name", "no alternatives", "rule"] ∧ Informs e.expected := by
  have hg : openEnded.Everywhere HasOwnLeaves := by
    simp [openEnded, Everywhere, AllEverywhere, HasOwnLeaves, Leaf.IsOwn]
  have hs : unfilledAndReleased.Everywhere HasOwnLeaves := by
    simp [unfilledAndReleased, Store.Everywhere, SlotState.Everywhere]
  have hrun : Parser.tryParse (openEnded.runWithin 5) {} ['b'] unfilledAndReleased =
      some (.error (.ofTrail "input" ['b']
        ⟨.start, .ofList ["'é'", "a name", "no alternatives", "rule"]⟩), unfilledAndReleased) := by
    rfl
  exact ⟨hg, hs, _, _, hrun, by decide, (((failures_inform hg hs 5).2 {} ['b']).2 _ _ hrun).1⟩

end Grammar

end FurthestFailure
