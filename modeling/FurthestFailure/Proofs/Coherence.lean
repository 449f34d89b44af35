import FurthestFailure.Proofs.Recording

/-! # Runs keep to the places of the text

From a cursor on a text, a run ends at a cursor on the same text that has gone no further back, and
the trail it leaves is at a place of the text that is not further back either. So three operations
that are only meant for some arguments are only used for such: advancing, forming a range, and
cutting out the text between two cursors. A watched run enters every use of them in a log.
-/
namespace FurthestFailure
set_option autoImplicit false

/-- A use of an operation: advancing over a text, forming a range, cutting from a cursor on. -/
inductive Use where
  | advance (c : Cursor) (matched : List Char)
  | range (r : Range)
  | cut (c : Cursor) (stop : Position)

namespace Use

def Sound : Use → Prop
  | advance c matched => matched <+: c.rest
  | range r => r.start.index ≤ r.stop.index
  | cut c stop =>
    c.position.index ≤ stop.index ∧
      ∃ matched rest, matched ++ rest = c.rest ∧
        Text.byteLength matched = stop.index - c.position.index

def ofLeaf (l : Leaf) (c : Cursor) : List Use :=
  match l.reading? c.position c.rest with
  | some (matched, _) => [advance c matched]
  | none => []

def ofMark (c : Cursor) (s : Success Value) : List Use := [range ⟨c.position, s.rest.position⟩]

def ofNegation (c : Cursor) (s : Success Value) : List Use := [cut c s.rest.position]

/-- Enters the uses that follow a success, behind those of the run itself. -/
def after (uses : Cursor → Success Value → List Use) (c : Cursor) (own : List Use) :
    Outcome Value → List Use
  | .success s => own ++ uses c s
  | .failure _ => own

end Use

namespace Grammar
open Recording

/-- As `Grammar.parser`, with the uses of partial operations entered in a log. -/
def watcher (run : Grammar → Parser (Recording Use) Value)
    (enter : Nat → Recording Use (Option Grammar))
    (perform : Assembly → Recording Use Grammar) : Grammar → Parser (Recording Use) Value
  | leaf l => fun c => logging (fun _ _ => Use.ofLeaf l c) (return l.run c)
  | mark g => (mark g).parser (fun h c => logging (Use.after Use.ofMark c) (run h c)) enter perform
  | node g name =>
    (node g name).parser (fun h c => logging (Use.after Use.ofMark c) (run h c)) enter perform
  | notFollowedBy g =>
    (notFollowedBy g).parser (fun h c => logging (Use.after Use.ofNegation c) (run h c)) enter perform
  | g => g.parser run enter perform

def watchedWithin : Nat → Grammar → Parser (Recording Use) Value
  | 0, _ => fun _ => unending
  | depth + 1, g =>
    g.watcher (watchedWithin depth) (fun slot => silently (Store.enter (runWithin depth) slot))
      fun a => silently (a.performed (runWithin depth))

end Grammar

theorem Trail.merge?_position {a b : Option Trail} {t : Trail} (h : merge? a b = some t) :
    (∃ u, a = some u ∧ u.position = t.position) ∨ ∃ u, b = some u ∧ u.position = t.position := by
  rcases a with _ | u
  · exact .inr ⟨t, by rcases b with _ | v <;> exact h, rfl⟩
  · rcases b with _ | v
    · exact .inl ⟨t, h, rfl⟩
    · cases h
      rw [merge]
      split
      · exact .inr ⟨v, rfl, rfl⟩
      · split
        · exact .inl ⟨u, rfl, rfl⟩
        · exact .inl ⟨u, rfl, rfl⟩

namespace Use
variable {text : List Char} {start : Nat}

/-- The ledger of a run over `text` from a cursor at byte `start`: sound uses, and a trail at a place
of the text that is no further back. -/
def ledger (text : List Char) (start : Nat) : Ledger Use where
  meets c := c.Reached text ∧ start ≤ c.position.index
  books l a := (∀ u ∈ l, u.Sound) ∧
    ∀ t, a = some t → t.position.ScannedIn text ∧ start ≤ t.position.index
  nil := ⟨by simp, by simp⟩
  append := by
    rintro l l' a b ⟨hl, ha⟩ ⟨hl', hb⟩
    constructor
    · intro u hu
      rcases List.mem_append.mp hu with hu | hu
      · exact hl u hu
      · exact hl' u hu
    · intro t ht
      rcases Trail.merge?_position ht with ⟨u, hu, hp⟩ | ⟨u, hu, hp⟩
      · exact hp ▸ ha u hu
      · exact hp ▸ hb u hu

abbrev watching (text : List Char) (start : Nat) : Correspondence Store (List Use × Store) :=
  (ledger text start).correspondence Grammar.IsLibraryLeaf

theorem watching_permissive : (watching text start).Permissive where
  fail label hcd hs := by
    obtain ⟨rfl, hc, hle⟩ := hcd
    refine ⟨hs.1, hs.2, rfl, [], by simp, by simp, ?_⟩
    intro t ht
    cases ht
    exact ⟨hc.scanned, hle⟩
  drop h := by
    obtain ⟨hs, hP, -, own, hown, hsound, -⟩ := h
    exact ⟨hs, hP, rfl, own, hown, hsound, by simp⟩
  relabel label h := by
    obtain ⟨hs, hP, hab, own, hown, hsound, hplace⟩ := h
    cases hab
    refine ⟨hs, hP, rfl, own, hown, hsound, ?_⟩
    have hold := hplace _ rfl
    intro t ht
    cases ht
    exact hold
  matched h h' := by rw [h.1, h'.1]

theorem books_back {l : List Use} {a : Option Trail} {back : Nat} (h : (ledger text start).books l a)
    (hle : back ≤ start) : (ledger text back).books l a := by
  refine ⟨h.1, ?_⟩
  intro t ht
  obtain ⟨hplace, hstart⟩ := h.2 t ht
  exact ⟨hplace, Nat.le_trans hle hstart⟩

theorem agree_watched {p : Parser Engine Value} {q : Parser (Recording Use) Value}
    {uses : Cursor → Success Value → List Use} (h : ∀ start, (watching text start).Agree Eq p q)
    (hsound : ∀ c s, c.Reached text → s.rest.Reached text →
      c.position.index ≤ s.rest.position.index → ∀ u ∈ uses c s, u.Sound) (start : Nat) :
    (watching text start).Agree Eq p fun c => Recording.logging (after uses c) (q c) := by
  refine Ledger.agree_logging fun c hc s hs => ?_
  have hready : (watching text c.position.index).ready s ([], s) := ⟨rfl, hs⟩
  refine (h c.position.index ⟨rfl, hc.1, Nat.le_refl _⟩ hready).mono ?_
  rintro ⟨o, s'⟩ ⟨o', own, t'⟩ hleft
  obtain ⟨rfl, rfl, hs', hb, hm⟩ := Ledger.left_nil_iff.mp hleft
  have hback := books_back hb hc.2
  cases o with
  | failure t =>
    refine ⟨rfl, rfl, hs', hback, ?_⟩
    intro u hu
    cases hu
  | success u =>
    obtain ⟨hreached, hle⟩ := hm u rfl
    refine ⟨rfl, rfl, hs', ⟨?_, hback.2⟩, ?_⟩
    · intro e he
      rcases List.mem_append.mp he with he | he
      · exact hback.1 e he
      · exact hsound c u hc.1 hreached hle e he
    · rintro _ ⟨⟩
      exact ⟨hreached, Nat.le_trans hc.2 hle⟩

theorem ofMark_sound {c : Cursor} {s : Success Value}
    (h : c.position.index ≤ s.rest.position.index) : ∀ u ∈ ofMark c s, u.Sound := by
  intro u hu
  rw [List.mem_singleton.mp hu]
  exact h

theorem ofNegation_sound {c : Cursor} {s : Success Value} (hc : c.Reached text)
    (hs : s.rest.Reached text) (h : c.position.index ≤ s.rest.position.index) :
    ∀ u ∈ ofNegation c s, u.Sound := by
  intro u hu
  rw [List.mem_singleton.mp hu]
  obtain ⟨matched, hrest, hadvance⟩ := hc.exists_between hs h
  refine ⟨h, matched, s.rest.rest, hrest.symm, ?_⟩
  rw [hadvance, Cursor.index_advance, Nat.add_sub_cancel_left]

theorem agree_leaf {l : Leaf} (hl : l.IsLibrary) :
    (watching text start).Agree Eq (fun c => pure (l.run c))
      fun c => Recording.logging (fun _ _ => ofLeaf l c) (pure (l.run c)) := by
  refine Ledger.agree_logging fun c hc s hs => Follows.some ?_
  rw [Leaf.run_eq hl, ofLeaf]
  rcases hr : l.reading? c.position c.rest with _ | ⟨matched, v⟩
  · refine ⟨rfl, rfl, hs, ⟨by simp, ?_⟩, ?_⟩
    · rintro t ⟨⟩
      exact ⟨hc.1.scanned, hc.2⟩
    · intro u hu
      cases hu
  · have hprefix := Leaf.reading?_prefix hl hr
    refine ⟨rfl, rfl, hs, ⟨?_, ?_⟩, ?_⟩
    · intro u hu
      rw [List.mem_singleton.mp hu]
      exact hprefix
    · intro t ht
      cases ht
    · rintro u ⟨⟩
      refine ⟨.advance hc.1 hprefix, Nat.le_trans hc.2 ?_⟩
      exact Nat.le_add_right _ _

end Use

namespace Grammar
open Correspondence Use

variable {text : List Char}

/-- The watched run ends as the plain one does. -/
theorem watchedWithin_agree {g : Grammar} (hg : g.IsLibrary) (text : List Char) (depth start : Nat) :
    (watching text start).Agree Eq (g.runWithin depth) (g.watchedWithin depth) := by
  -- From every place at once: the run below a mark is watched from where the mark begins.
  induction depth generalizing g start with
  | zero => exact fun _ _ _ _ _ _ => Follows.none
  | succ depth ih =>
    have hpos : ∀ {c d}, (watching text start).cursors c d → c.position = d.position :=
      fun h => congrArg Cursor.position h.1
    have hmarked : ∀ g, g.Everywhere IsLibraryLeaf → (watching text start).Agree Eq
        (runWithin depth g) fun c => Recording.logging (after ofMark c) (watchedWithin depth g c) :=
      fun g hg => agree_watched (fun start => ih hg start) (fun c s _ _ h => ofMark_sound h) start
    have hnegated : ∀ g, g.Everywhere IsLibraryLeaf → (watching text start).Agree Eq
        (runWithin depth g)
        fun c => Recording.logging (after ofNegation c) (watchedWithin depth g c) :=
      fun g hg => agree_watched (fun start => ih hg start)
        (fun c s hc hs h => ofNegation_sound hc hs h) start
    rw [runWithin, watchedWithin]
    cases g with
    | leaf l => exact agree_leaf hg
    | mark g => exact agree_mark hpos (hmarked g hg.2)
    | node g name => exact agree_node hpos (hmarked g hg.2) name
    | notFollowedBy g =>
      exact watching_permissive.agree_parser hnegated (fun slot s t h => Ledger.enter_silently slot h)
        (fun a ha s t h => Ledger.performed_silently ha h) hg (by simp) (by simp) (by simp)
    | _ =>
      exact watching_permissive.agree_parser (fun g hg => ih hg start)
        (fun slot s t h => Ledger.enter_silently slot h)
        (fun a ha s t h => Ledger.performed_silently ha h) hg (by simp) (by simp) (by simp)

theorem onward_of_runWithin {g : Grammar} (hg : g.IsLibrary) {store : Store} (hs : store.IsLibrary)
    {c : Cursor} (hc : c.Reached text) {depth : Nat} {u : Success Value} {final : Store}
    (h : g.runWithin depth c store = some (.success u, final)) :
    u.rest.Reached text ∧ c.position.index ≤ u.rest.position.index := by
  have hready : (watching text c.position.index).ready store ([], store) := ⟨rfl, hs⟩
  obtain ⟨⟨o', uses, s'⟩, -, hleft⟩ :=
    watchedWithin_agree hg text depth _ ⟨rfl, hc, Nat.le_refl _⟩ hready h
  obtain ⟨-, -, -, -, hmeets⟩ := Ledger.left_nil_iff.mp hleft
  exact hmeets u rfl

theorem scanned_of_trail {g : Grammar} (hg : g.IsLibrary) {store : Store} (hs : store.IsLibrary)
    {c : Cursor} (hc : c.Reached text) {depth : Nat} {o : Outcome Value} {final : Store}
    (h : g.runWithin depth c store = some (o, final)) {t : Trail} (ht : o.trail? = some t) :
    t.position.ScannedIn text := by
  have hready : (watching text c.position.index).ready store ([], store) := ⟨rfl, hs⟩
  obtain ⟨⟨o', uses, s'⟩, -, hleft⟩ :=
    watchedWithin_agree hg text depth _ ⟨rfl, hc, Nat.le_refl _⟩ hready h
  obtain ⟨-, -, -, ⟨-, htrail⟩, -⟩ := Ledger.left_nil_iff.mp hleft
  exact (htrail t ht).1

theorem scanned_of_failure {g : Grammar} (hg : g.IsLibrary) {store : Store} (hs : store.IsLibrary)
    {c : Cursor} (hc : c.Reached text) {depth : Nat} {t : Trail} {final : Store}
    (h : g.runWithin depth c store = some (.failure t, final)) : t.position.ScannedIn text :=
  scanned_of_trail hg hs hc h rfl

/-- A run stays on the text and goes no further back than its start, and so does its trail; all its
uses of partial operations are sound. -/
theorem run_keeps_to_text {g : Grammar} (hg : g.IsLibrary) {store : Store} (hs : store.IsLibrary)
    {text : List Char} {c : Cursor} (hc : c.Reached text) {depth : Nat} {o : Outcome Value}
    {final : Store} (h : g.runWithin depth c store = some (o, final)) :
    (∀ s, o = .success s →
      s.rest.text = text ∧ s.rest.rest = Text.dropBytes s.rest.position.index text ∧
        s.rest.position.ScannedIn text ∧ c.position.index ≤ s.rest.position.index ∧
        s.rest.position.index ≤ Text.byteLength text) ∧
      (∀ t, o.trail? = some t →
        t.position.ScannedIn text ∧ c.position.index ≤ t.position.index ∧
          t.position.index ≤ Text.byteLength text) ∧
      ∃ uses, g.watchedWithin depth c ([], store) = some (o, (uses, final)) ∧
        ∀ u ∈ uses, u.Sound := by
  have hready : (watching text c.position.index).ready store ([], store) := ⟨rfl, hs⟩
  obtain ⟨⟨o', uses, s'⟩, hwatched, hleft⟩ :=
    watchedWithin_agree hg text depth _ ⟨rfl, hc, Nat.le_refl _⟩ hready h
  obtain ⟨rfl, rfl, _, ⟨hsound, htrail⟩, hmeets⟩ := Ledger.left_nil_iff.mp hleft
  refine ⟨?_, ?_, uses, hwatched, hsound⟩
  · intro s ho
    obtain ⟨hreached, hle⟩ := hmeets s ho
    exact ⟨hreached.text_eq, hreached.dropBytes_eq.symm, hreached.scanned, hle,
      hreached.scanned.index_le⟩
  · intro t ht
    obtain ⟨hscanned, hle⟩ := htrail t ht
    exact ⟨hscanned, hle, hscanned.index_le⟩

/-- A marked line end, not before a `b`, and then a `c` if there is one. -/
def markedLine : Grammar :=
  .sequence [.mark (.leaf (.literal "é\n")), .notFollowedBy (.leaf (.literal "b")),
    .optional (.leaf (.oneOf "c"))]

def markedLineText : List Char := ['x', 'é', '\n', 'a']

def markedLineOutcome : Outcome Value :=
  .success ⟨.list [.marked (.text "é\n") ⟨⟨1, 1, 2⟩, ⟨4, 2, 1⟩⟩, .null, .null],
    .after ['x', 'é', '\n'] ['a'], some ⟨⟨4, 2, 1⟩, .ofList ["one of 'c'"]⟩⟩

/-- The run begins behind the first character. -/
theorem run_keeps_to_text_markedLine :
    markedLine.runWithin 4 ((Cursor.start markedLineText).advance ['x']) {} =
        some (markedLineOutcome, {}) ∧
      (∀ s, markedLineOutcome = .success s →
        s.rest.text = markedLineText ∧
          s.rest.rest = Text.dropBytes s.rest.position.index markedLineText ∧
          s.rest.position.ScannedIn markedLineText ∧ 1 ≤ s.rest.position.index ∧
          s.rest.position.index ≤ Text.byteLength markedLineText) ∧
      (∀ t, markedLineOutcome.trail? = some t →
        t.position.ScannedIn markedLineText ∧ 1 ≤ t.position.index ∧
          t.position.index ≤ Text.byteLength markedLineText) ∧
      ∃ uses, markedLine.watchedWithin 4 ((Cursor.start markedLineText).advance ['x']) ([], {}) =
          some (markedLineOutcome, (uses, {})) ∧
        ∀ u ∈ uses, u.Sound := by
  have hrun : markedLine.runWithin 4 ((Cursor.start markedLineText).advance ['x']) {} =
      some (markedLineOutcome, {}) := by rfl
  have hg : markedLine.IsLibrary := by
    simp [markedLine, Everywhere, AllEverywhere, IsLibraryLeaf, Leaf.IsLibrary]
  have hc : ((Cursor.start markedLineText).advance ['x']).Reached markedLineText :=
    .advance .start ⟨['é', '\n', 'a'], rfl⟩
  exact ⟨hrun, run_keeps_to_text hg Store.everywhere_empty hc hrun⟩

end Grammar
end FurthestFailure
