import FurthestFailure.Proofs.Recording

/-! # The trail of a result is the report of all failures on the way

A recording run enters each failure that it meets in a log, also in branches that it gives up. A
described grammar that fails replaces the entries of its own run by one at the deepest of them, and a
negative predicate replaces them by its own failure, if there is one. The trail of the result says
exactly what the log says of its deepest entries.
-/
namespace FurthestFailure
set_option autoImplicit false

structure Failure where
  position : Position
  label : String
  deriving DecidableEq

namespace Failure

def deepest? : List Failure → Option Position
  | [] => none
  | f :: fs =>
    match deepest? fs with
    | none => some f.position
    | some p => if p.index ≤ f.position.index then some f.position else some p

/-- The failures that an outcome itself stands for. -/
def ofOutcome {α : Type} : Outcome α → List Failure
  | .success _ => []
  | .failure t => t.expected.toList.map fun label => ⟨t.position, label⟩

/-- What remains of the entries of a described run. -/
def described {α : Type} (label : String) (own : List Failure) : Outcome α → List Failure
  | .success _ => own
  | .failure _ => (deepest? own).toList.map fun p => ⟨p, label⟩

end Failure

namespace Grammar
open Recording

/-- As `Grammar.parser`, with the failures entered in a log. -/
def recorder (run : Grammar → Parser (Recording Failure) Value)
    (enter : Nat → Recording Failure (Option Grammar))
    (perform : Assembly → Recording Failure Grammar) : Grammar → Parser (Recording Failure) Value
  | leaf l => fun c => logging (fun _ o => Failure.ofOutcome o) (return l.run c)
  | choice [] => fun c =>
    logging (fun _ o => Failure.ofOutcome o) ((choice []).parser run enter perform c)
  | notFollowedBy g => fun c =>
    logging (fun _ o => Failure.ofOutcome o) ((notFollowedBy g).parser run enter perform c)
  | describe g label => fun c =>
    logging (Failure.described label) ((describe g label).parser run enter perform c)
  | handle slot label => fun c => do
    match ← enter slot with
    | some g => run g c
    | none => logging (fun _ o => Failure.ofOutcome o) (return c.fail label)
  | g => g.parser run enter perform

def recordedWithin : Nat → Grammar → Parser (Recording Failure) Value
  | 0, _ => fun _ => unending
  | depth + 1, g =>
    g.recorder (recordedWithin depth) (fun slot => silently (Store.enter (runWithin depth) slot))
      fun a => silently (a.performed (runWithin depth))

end Grammar

/-- The trail is at the deepest entries of the log, and expects exactly what they expected. -/
structure Trail.Reports (t : Trail) (log : List Failure) : Prop where
  deepest : ∀ f ∈ log, f.position.index ≤ t.position.index
  place : ∀ f ∈ log, f.position.index = t.position.index → f.position = t.position
  met : ∃ f ∈ log, f.position = t.position
  expected : ∀ label, label ∈ t.expected ↔ ⟨t.position, label⟩ ∈ log

def Trail.Accounts (log : List Failure) : Option Trail → Prop
  | none => log = []
  | some t => t.Reports log

namespace Trail.Reports
variable {a b : Trail} {l l' : List Failure}

/-- Shallower entries do not change the report. -/
theorem widen (h : a.Reports l) (hsub : ∀ f ∈ l, f ∈ l')
    (hnew : ∀ f ∈ l', f ∈ l ∨ f.position.index < a.position.index) : a.Reports l' where
  deepest f hf := by
    rcases hnew f hf with hf | hlt
    · exact h.deepest f hf
    · exact Nat.le_of_lt hlt
  place f hf hi := by
    rcases hnew f hf with hf | hlt
    · exact h.place f hf hi
    · omega
  met := by
    obtain ⟨f, hf, hp⟩ := h.met
    exact ⟨f, hsub f hf, hp⟩
  expected label := by
    rw [h.expected]
    constructor
    · exact hsub _
    · intro hf
      rcases hnew _ hf with hf | hlt
      · exact hf
      · exact absurd hlt (Nat.lt_irrefl _)

theorem union (ha : a.Reports l) (hb : b.Reports l') (h : a.position = b.position) :
    Trail.Reports ⟨a.position, a.expected ∪ b.expected⟩ (l ++ l') where
  deepest f hf := by
    rcases List.mem_append.mp hf with hf | hf
    · exact ha.deepest f hf
    · exact h ▸ hb.deepest f hf
  place f hf hi := by
    rcases List.mem_append.mp hf with hf | hf
    · exact ha.place f hf hi
    · have hi : f.position.index = b.position.index := h ▸ hi
      exact (hb.place f hf hi).trans h.symm
  met := by
    obtain ⟨f, hf, hp⟩ := ha.met
    exact ⟨f, List.mem_append_left _ hf, hp⟩
  expected label := by
    rw [Labels.mem_union, ha.expected, hb.expected, ← h, List.mem_append]

theorem merge (ha : a.Reports l) (hb : b.Reports l')
    (h : a.position.index = b.position.index → a.position = b.position) :
    (a.merge b).Reports (l ++ l') := by
  rw [Trail.merge]
  split
  · next hlt =>
    refine hb.widen (fun f hf => List.mem_append_right _ hf) ?_
    intro f hf
    rcases List.mem_append.mp hf with hf | hf
    · exact .inr (Nat.lt_of_le_of_lt (ha.deepest f hf) hlt)
    · exact .inl hf
  · next hle =>
    split
    · next hlt =>
      refine ha.widen (fun f hf => List.mem_append_left _ hf) ?_
      intro f hf
      rcases List.mem_append.mp hf with hf | hf
      · exact .inl hf
      · exact .inr (Nat.lt_of_le_of_lt (hb.deepest f hf) hlt)
    · exact ha.union hb (h (by omega))

theorem scanned {text : List Char} (ha : a.Reports l)
    (hl : ∀ f ∈ l, f.position.ScannedIn text) : a.position.ScannedIn text := by
  obtain ⟨f, hf, hp⟩ := ha.met
  exact hp ▸ hl f hf

end Trail.Reports

theorem Trail.reports_failure (p : Position) (label : String) :
    (Trail.failure p label).Reports [⟨p, label⟩] where
  deepest f hf := by simp_all [Trail.failure]
  place f hf _ := by simp_all [Trail.failure]
  met := ⟨_, List.mem_singleton_self _, rfl⟩
  expected x := by simp [Trail.failure]

namespace Failure
variable {text : List Char}

theorem accounts_append {l l' : List Failure} {a b : Option Trail}
    (hl : ∀ f ∈ l, f.position.ScannedIn text) (hl' : ∀ f ∈ l', f.position.ScannedIn text)
    (ha : Trail.Accounts l a) (hb : Trail.Accounts l' b) :
    Trail.Accounts (l ++ l') (Trail.merge? a b) := by
  cases a with
  | none =>
    obtain rfl : l = [] := ha
    cases b <;> exact hb
  | some a =>
    cases b with
    | none =>
      obtain rfl : l' = [] := hb
      rw [List.append_nil]
      exact ha
    | some b =>
      have hreports : a.Reports l ∧ b.Reports l' := ⟨ha, hb⟩
      exact hreports.1.merge hreports.2 fun hi =>
        (hreports.1.scanned hl).eq_of_index_eq (hreports.2.scanned hl') hi

/-- The ledger of a run over `text`: the trail reports the entries, which are at places of the text. -/
def ledger (text : List Char) : Ledger Failure where
  meets c := c.Reached text
  books l a := (∀ f ∈ l, f.position.ScannedIn text) ∧ Trail.Accounts l a
  nil := ⟨by simp, rfl⟩
  append h h' := by
    refine ⟨?_, accounts_append h.1 h'.1 h.2 h'.2⟩
    intro f hf
    rcases List.mem_append.mp hf with hf | hf
    · exact h.1 f hf
    · exact h'.1 f hf

@[simp] theorem ofOutcome_fail {α : Type} (c : Cursor) (label : String) :
    ofOutcome (c.fail label : Outcome α) = [⟨c.position, label⟩] := rfl

theorem books_failure {p : Position} (hp : p.ScannedIn text) (label : String) :
    (ledger text).books [⟨p, label⟩] (some (.failure p label)) := by
  refine ⟨?_, Trail.reports_failure _ _⟩
  intro f hf
  rw [List.mem_singleton.mp hf]
  exact hp

theorem exists_deepest? (f : Failure) (fs : List Failure) :
    ∃ d ∈ f :: fs, deepest? (f :: fs) = some d.position ∧
      ∀ e ∈ f :: fs, e.position.index ≤ d.position.index := by
  induction fs generalizing f with
  | nil => exact ⟨f, by simp, rfl, by simp⟩
  | cons e es ih =>
    obtain ⟨d, hd, hdeep, hmax⟩ := ih e
    rw [deepest?, hdeep]
    by_cases hle : d.position.index ≤ f.position.index
    · refine ⟨f, List.mem_cons_self, if_pos hle, ?_⟩
      intro e' he'
      rcases List.mem_cons.mp he' with rfl | he'
      · exact Nat.le_refl _
      · exact Nat.le_trans (hmax e' he') hle
    · refine ⟨d, List.mem_cons_of_mem _ hd, if_neg hle, ?_⟩
      intro e' he'
      rcases List.mem_cons.mp he' with rfl | he'
      · omega
      · exact hmax e' he'

theorem deepest?_eq {l : List Failure} {t : Trail} (ht : t.Reports l) :
    deepest? l = some t.position := by
  obtain ⟨f, hf, hp⟩ := ht.met
  cases l with
  | nil => cases hf
  | cons e es =>
    obtain ⟨d, hd, hdeep, hmax⟩ := exists_deepest? e es
    have hle := ht.deepest d hd
    have hge := hp ▸ hmax f hf
    rw [hdeep, ht.place d hd (by omega)]

end Failure

namespace Grammar
open Correspondence Failure

variable {text : List Char}

theorem recorder_of_combines {g : Grammar} (hc : g.Combines)
    (run : Grammar → Parser (Recording Failure) Value)
    (enter : Nat → Recording Failure (Option Grammar))
    (perform : Assembly → Recording Failure Grammar) :
    g.recorder run enter perform = g.parser run enter perform := by
  cases g with
  | choice gs =>
    cases gs with
    | nil => exact absurd rfl hc
    | cons => rfl
  | leaf | notFollowedBy | describe | handle => exact hc.elim
  | _ => rfl

theorem agree_own_failure (label : String) :
    ((ledger text).correspondence IsLibraryLeaf).Agree Eq
      (fun c => pure (c.fail label : Outcome Value))
      fun c => Recording.logging (fun _ o => ofOutcome o) (pure (c.fail label)) := by
  refine Ledger.agree_logging fun c hc s hs => Follows.some ?_
  refine ⟨rfl, rfl, hs, books_failure hc.scanned label, ?_⟩
  intro u hu
  cases hu

theorem agree_leaf {l : Leaf} (hl : l.IsLibrary) :
    ((ledger text).correspondence IsLibraryLeaf).Agree Eq (fun c => pure (l.run c))
      fun c => Recording.logging (fun _ o => ofOutcome o) (pure (l.run c)) := by
  refine Ledger.agree_logging fun c hc s hs => Follows.some ⟨rfl, rfl, hs, ?_, ?_⟩
  · rcases l.run_cases hl c with ⟨matched, v, _, he⟩ | he
    · simp only [he]
      exact (ledger text).nil
    · simp only [he]
      exact books_failure hc.scanned _
  · intro u hu
    rcases l.run_cases hl c with ⟨matched, v, hm, he⟩ | he
    · rw [he] at hu
      cases hu
      exact .advance hc hm
    · rw [he] at hu
      cases hu

section
variable {run₁ : Grammar → Parser Engine Value} {run₂ : Grammar → Parser (Recording Failure) Value}
variable {g : Grammar}
variable (hrun : ((ledger text).correspondence IsLibraryLeaf).Agree Eq (run₁ g) (run₂ g))
include hrun

theorem agree_describe (label : String) :
    ((ledger text).correspondence IsLibraryLeaf).Agree Eq ((run₁ g).describe label)
      fun c => Recording.logging (described label) ((run₂ g).describe label c) := by
  refine Ledger.agree_logging fun c hc s hs => Follows.bind (hrun ⟨rfl, hc⟩ ⟨rfl, hs⟩) ?_
  rintro o s' o' ⟨own, t'⟩ h
  obtain ⟨rfl, rfl, hs', hb, hm⟩ := Ledger.left_nil_iff.mp h
  cases o with
  | success u => exact Follows.some ⟨rfl, rfl, hs', hb, hm⟩
  | failure t =>
    have hreports : t.Reports own := hb.2
    refine Follows.some ⟨rfl, rfl, hs', ?_, ?_⟩
    · simp only [described, deepest?_eq hreports]
      exact books_failure (hreports.scanned hb.1) label
    · intro u hu
      cases hu

theorem agree_notFollowedBy :
    ((ledger text).correspondence IsLibraryLeaf).Agree Eq
      ((run₁ g).notFollowedBy.map fun _ => Value.null)
      fun c => Recording.logging (fun _ o => ofOutcome o)
        ((run₂ g).notFollowedBy.map (fun _ => Value.null) c) := by
  refine Ledger.agree_logging fun c hc s hs => ?_
  refine Follows.bind (R := fun r r' => r.1 = r'.1 ∧ r.2 = r'.2.2 ∧ r.2.Everywhere IsLibraryLeaf ∧
    (r.1 = c.succeed () ∨ ∃ label, r.1 = c.fail label)) ?_ ?_
  · refine Follows.bind (hrun ⟨rfl, hc⟩ ⟨rfl, hs⟩) ?_
    rintro o s' o' ⟨own, t'⟩ h
    obtain ⟨rfl, rfl, hs', _⟩ := Ledger.left_nil_iff.mp h
    cases o with
    | success u => exact Follows.some ⟨rfl, rfl, hs', .inr ⟨_, rfl⟩⟩
    | failure t => exact Follows.some ⟨rfl, rfl, hs', .inl rfl⟩
  · rintro o s' o' ⟨own, t'⟩ ⟨rfl, rfl, hs', rfl | ⟨label, rfl⟩⟩
    · refine Follows.some ⟨rfl, rfl, hs', (ledger text).nil, ?_⟩
      rintro u hu
      cases hu
      exact hc
    · refine Follows.some ⟨rfl, rfl, hs', books_failure hc.scanned label, ?_⟩
      rintro u hu
      cases hu

end

/-- The recording run ends as the plain one does, and its log accounts for the trail. -/
theorem recordedWithin_agree {g : Grammar} (hg : g.IsLibrary) (text : List Char) (depth : Nat) :
    ((ledger text).correspondence IsLibraryLeaf).Agree Eq (g.runWithin depth)
      (g.recordedWithin depth) := by
  -- The entries of a grammar are those of its parts, unless it keeps a log of its own.
  induction depth generalizing g with
  | zero => exact fun _ _ _ _ _ _ => Follows.none
  | succ depth ih =>
    have hrun : ∀ g, g.Everywhere IsLibraryLeaf →
        ((ledger text).correspondence IsLibraryLeaf).Agree Eq (runWithin depth g)
          (recordedWithin depth g) := fun g hg => ih hg
    have hpos : ∀ {c d}, ((ledger text).correspondence IsLibraryLeaf).cursors c d →
        c.position = d.position := fun h => congrArg Cursor.position h.1
    rw [runWithin, recordedWithin]
    by_cases hc : g.Combines
    · rw [recorder_of_combines hc]
      exact agree_of_combines hrun (fun a ha s t h => Ledger.performed_silently ha h) hg hc
    · cases g with
      | leaf l => exact agree_leaf hg.here
      | choice gs =>
        obtain rfl : gs = [] := by simpa [Combines] using hc
        exact agree_own_failure "no alternatives"
      | notFollowedBy g => exact agree_notFollowedBy (hrun g hg.2)
      | describe g label => exact agree_describe (hrun g hg.2) label
      | mark g => exact agree_mark hpos (hrun g hg.2)
      | node g name => exact agree_node hpos (hrun g hg.2) name
      | handle slot label =>
        exact Agree.entering hrun (fun s t h => Ledger.enter_silently slot h)
          (agree_own_failure label)
      | map | chain | sequence | many | times | separatedBy | separatedBy1 | lookahead | optional
        | holding => exact absurd trivial hc

theorem accounts_none_iff {log : List Failure} {a : Option Trail} (h : Trail.Accounts log a) :
    a = none ↔ log = [] := by
  cases a with
  | none => exact ⟨fun _ => h, fun _ => rfl⟩
  | some t =>
    refine ⟨fun ht => absurd ht (Option.some_ne_none t), ?_⟩
    rintro rfl
    obtain ⟨f, hf, _⟩ := Trail.Reports.met h
    cases hf

/-- Whatever the grammar, the text and the place, the trail of a result is `none` exactly when no
failure was met, and otherwise names the deepest place of one and exactly what was expected there. -/
theorem trail_reports_log {g : Grammar} (hg : g.IsLibrary) {store : Store} (hs : store.IsLibrary)
    {text : List Char} {c : Cursor} (hc : c.Reached text) {depth : Nat} {o : Outcome Value}
    {final : Store} (h : g.runWithin depth c store = some (o, final)) :
    ∃ log, g.recordedWithin depth c ([], store) = some (o, (log, final)) ∧
      (o.trail? = none ↔ log = []) ∧ ∀ t, o.trail? = some t → t.Reports log := by
  have hready : ((ledger text).correspondence IsLibraryLeaf).ready store ([], store) := ⟨rfl, hs⟩
  obtain ⟨⟨o', log, s'⟩, hrecorded, hleft⟩ :=
    recordedWithin_agree hg text depth ⟨rfl, hc⟩ hready h
  obtain ⟨rfl, rfl, _, ⟨_, haccounts⟩, _⟩ := Ledger.left_nil_iff.mp hleft
  refine ⟨log, hrecorded, accounts_none_iff haccounts, ?_⟩
  intro t ht
  rw [ht] at haccounts
  exact haccounts

/-- A pair, described as such, or a run of single characters. -/
def pairOrRun : Grammar :=
  .or (.describe (.sequence [.leaf (.literal "a"), .leaf (.literal "b")]) "pair")
    (.many (.leaf (.oneOf "xa")))

def pairOrRunOutcome : Outcome Value :=
  .success ⟨.list [.text "a"], .after ['x', 'a'] ['c'],
    some ⟨⟨2, 1, 3⟩, .ofList ["pair", "one of 'xa'"]⟩⟩

theorem trail_reports_log_pairOrRun :
    pairOrRun.runWithin 4 ((Cursor.start ['x', 'a', 'c']).advance ['x']) {} =
        some (pairOrRunOutcome, {}) ∧
      ∃ log, pairOrRun.recordedWithin 4 ((Cursor.start ['x', 'a', 'c']).advance ['x']) ([], {}) =
          some (pairOrRunOutcome, (log, {})) ∧
        (pairOrRunOutcome.trail? = none ↔ log = []) ∧
        ∀ t, pairOrRunOutcome.trail? = some t → t.Reports log := by
  have hmany : (many (.leaf (.oneOf "xa"))).runWithin 3
      ((Cursor.start ['x', 'a', 'c']).advance ['x']) {} = some (.success ⟨.list [.text "a"],
        .after ['x', 'a'] ['c'], some (.failure ⟨2, 1, 3⟩ "one of 'xa'")⟩, {}) :=
    Option.bind_eq_some_iff.mpr ⟨_, Parser.manyFrom_of_moved rfl (by decide) (by decide)
      (Parser.manyFrom_of_failed rfl), rfl⟩
  have hrun : pairOrRun.runWithin 4 ((Cursor.start ['x', 'a', 'c']).advance ['x']) {} =
      some (pairOrRunOutcome, {}) :=
    Option.bind_eq_some_iff.mpr ⟨_, hmany, rfl⟩
  have hg : pairOrRun.IsLibrary := by
    simp [pairOrRun, Grammar.or, Everywhere, AllEverywhere, IsLibraryLeaf, Leaf.IsLibrary]
  have hc : ((Cursor.start ['x', 'a', 'c']).advance ['x']).Reached ['x', 'a', 'c'] :=
    .advance .start ⟨['a', 'c'], rfl⟩
  exact ⟨hrun, trail_reports_log hg Store.everywhere_empty hc hrun⟩

end Grammar
end FurthestFailure
