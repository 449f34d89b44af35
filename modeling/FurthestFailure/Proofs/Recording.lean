import FurthestFailure.Proofs.Depth
import FurthestFailure.Proofs.Reading

/-! # Runs that keep a log

The combinators are the same in every monad, so a run that also keeps a log is made of the same code
as a plain one; only the parsers that have something to enter in the log are changed. Entering slots
and carrying out assemblies enters nothing.

A ledger says which entries may stand in the log beside the trail that the same stretch of the run
leaves. Then a recording run corresponds to the plain one.
-/
namespace FurthestFailure
set_option autoImplicit false

abbrev Recording (ε : Type) := StateT (List ε × Store) Option

namespace Recording
variable {ε α : Type}

def silently (x : Engine α) : Recording ε α := fun t =>
  (x t.2).map fun r => (r.1, (t.1, r.2))

/-- Runs `x` with a log of its own and adds to the log before it what `entries` makes of that. -/
def logging (entries : List ε → α → List ε) (x : Recording ε α) : Recording ε α := fun t =>
  (x ([], t.2)).map fun r => (r.1, (t.1 ++ entries r.2.1 r.1, r.2.2))

end Recording

theorem Follows.silently {ε α σ : Type} {R : α × σ → α × (List ε × Store) → Prop}
    {x : Option (α × σ)} {y : Engine α} {log : List ε} {store : Store}
    (h : Follows (fun r r' => R r (r'.1, (log, r'.2))) x (y store)) :
    Follows R x (Recording.silently y (log, store)) := by
  intro r hr
  obtain ⟨r', hr', hR⟩ := h hr
  exact ⟨_, Option.map_eq_some_iff.mpr ⟨r', hr', rfl⟩, hR⟩

theorem Follows.logging {ε α σ : Type} {R : α × σ → α × (List ε × Store) → Prop}
    {x : Option (α × σ)} {y : Recording ε α} {entries : List ε → α → List ε} {log : List ε}
    {store : Store}
    (h : Follows (fun r r' => R r (r'.1, (log ++ entries r'.2.1 r'.1, r'.2.2))) x (y ([], store))) :
    Follows R x (Recording.logging entries y (log, store)) := by
  intro r hr
  obtain ⟨r', hr', hR⟩ := h hr
  exact ⟨_, Option.map_eq_some_iff.mpr ⟨r', hr', rfl⟩, hR⟩

/-- The cursors that a run may meet, and the entries that may go with a trail. -/
structure Ledger (ε : Type) where
  meets : Cursor → Prop
  books : List ε → Option Trail → Prop
  nil : books [] none
  append {l l' : List ε} {a b : Option Trail} :
    books l a → books l' b → books (l ++ l') (Trail.merge? a b)

namespace Ledger
variable {ε : Type} (L : Ledger ε) (P : Grammar → Prop)

/-- The plain run and the recording one see and leave the same, and the entries of every stretch go
with its trail. -/
def correspondence : Correspondence Store (List ε × Store) where
  cursors c d := c = d ∧ L.meets c
  ready s t := s = t.2 ∧ s.Everywhere P
  stretch _ t s' t' a b :=
    s' = t'.2 ∧ s'.Everywhere P ∧ a = b ∧ ∃ own, t'.1 = t.1 ++ own ∧ L.books own a
  stay h := ⟨h.1, h.2, rfl, [], by simp, L.nil⟩
  ready_after h := ⟨h.1, h.2.1⟩
  join := by
    rintro s s' s'' t t' t'' a a' b b' ⟨-, -, rfl, own, hown, hb⟩ ⟨hs, hP, rfl, own', hown', hb'⟩
    refine ⟨hs, hP, rfl, own ++ own', ?_, L.append hb hb'⟩
    rw [hown', hown, List.append_assoc]
  none_iff h := by rw [h.2.2.1]
  still_iff h h' := by rw [h.1, h'.1]
  shorter h h' := by rw [h.1, h'.1]; exact id

variable {L P}

theorem left_iff {α : Type} {s s' : Store} {log own : List ε} {t t' : Store} {o o' : Outcome α} :
    (L.correspondence P).Left Eq s (log, t) (o, s') (o', (log ++ own, t')) ↔
      o = o' ∧ s' = t' ∧ s'.Everywhere P ∧ L.books own o.trail? ∧
        ∀ u, o = .success u → L.meets u.rest := by
  constructor
  · rintro ⟨⟨hs, hP, ht, own', hown, hb⟩, ho⟩
    obtain rfl : own = own' := List.append_cancel_left hown
    have heq : o = o' := by
      cases ho with
      | success hv hc => exact (Outcome.Alike.success hv hc.1).eq ht
      | failure => exact Outcome.Alike.failure.eq ht
    refine ⟨heq, hs, hP, hb, ?_⟩
    rintro u rfl
    cases ho with
    | success _ hc => exact hc.2
  · rintro ⟨rfl, rfl, hP, hb, hc⟩
    refine ⟨⟨rfl, hP, rfl, own, rfl, hb⟩, ?_⟩
    cases o with
    | success u => exact .success rfl ⟨rfl, hc u rfl⟩
    | failure => exact .failure

theorem left_nil_iff {α : Type} {s s' : Store} {own : List ε} {t t' : Store} {o o' : Outcome α} :
    (L.correspondence P).Left Eq s ([], t) (o, s') (o', (own, t')) ↔
      o = o' ∧ s' = t' ∧ s'.Everywhere P ∧ L.books own o.trail? ∧
        ∀ u, o = .success u → L.meets u.rest :=
  left_iff

theorem agree_logging {α : Type} {p : Parser Engine α} {q : Parser (Recording ε) α}
    {entries : Cursor → List ε → Outcome α → List ε}
    (h : ∀ c, L.meets c → ∀ s, s.Everywhere P →
      Follows (fun r r' => r.1 = r'.1 ∧ r.2 = r'.2.2 ∧ r.2.Everywhere P ∧
        L.books (entries c r'.2.1 r'.1) r.1.trail? ∧ ∀ u, r.1 = .success u → L.meets u.rest)
        (p c s) (q c ([], s))) :
    (L.correspondence P).Agree Eq p fun c => Recording.logging (entries c) (q c) := by
  rintro c _ ⟨rfl, hc⟩ s ⟨log, t⟩ ⟨rfl, hs⟩
  refine Follows.logging ((h c hc s hs).mono ?_)
  rintro ⟨o, s'⟩ ⟨o', own, t'⟩ hr
  exact left_iff.mpr hr

theorem quiet {s : Store} {log : List ε} {s' : Store} (t : Store) (h : s'.Everywhere P) :
    (L.correspondence P).stretch s (log, t) s' (log, s') none none :=
  ⟨rfl, h, rfl, [], by simp, L.nil⟩

theorem performed_silently {depth : Nat} {a : Assembly} (ha : a.Everywhere P) {s : Store}
    {t : List ε × Store} (h : (L.correspondence P).ready s t) :
    Follows ((L.correspondence P).Assembled P s t) (a.performed (Grammar.runWithin depth) s)
      (Recording.silently (a.performed (Grammar.runWithin depth)) t) := by
  obtain ⟨log, t⟩ := t
  obtain ⟨rfl, hs⟩ := h
  refine Follows.silently ?_
  have hrun := fun g hg =>
    Grammar.runWithin_agree Store.lasting_everywhere (P := P) (g := g) hg (Nat.le_refl depth)
  refine (Correspondence.performed_follows Store.lasting_everywhere hrun ha ⟨rfl, hs⟩).mono ?_
  rintro ⟨g, s'⟩ ⟨g', t'⟩ ⟨hgg, hg, ⟨rfl, hs'⟩, -⟩
  exact ⟨hgg, hg, quiet _ hs'⟩

theorem enter_silently {depth : Nat} (slot : Nat) {s : Store} {t : List ε × Store}
    (h : (L.correspondence P).ready s t) :
    Follows ((L.correspondence P).Found P s t) (Store.enter (Grammar.runWithin depth) slot s)
      (Recording.silently (Store.enter (Grammar.runWithin depth) slot) t) := by
  obtain ⟨log, t⟩ := t
  obtain ⟨rfl, hs⟩ := h
  refine Follows.silently ?_
  have hrun := fun g hg =>
    Grammar.runWithin_agree Store.lasting_everywhere (P := P) (g := g) hg (Nat.le_refl depth)
  refine (Correspondence.enter_follows Store.lasting_everywhere hrun slot ⟨rfl, hs⟩).mono ?_
  rintro ⟨g, s'⟩ ⟨g', t'⟩ ⟨hgg, hg, ⟨rfl, hs'⟩, -⟩
  exact ⟨hgg, hg, quiet _ hs'⟩

end Ledger

namespace Grammar

def IsLibraryLeaf : Grammar → Prop
  | leaf l => l.IsLibrary
  | _ => True

/-- The grammar has leaves of the library only, whatever it assembles. -/
abbrev IsLibrary (g : Grammar) : Prop := g.Everywhere IsLibraryLeaf

end Grammar

abbrev Store.IsLibrary (store : Store) : Prop := store.Everywhere Grammar.IsLibraryLeaf

end FurthestFailure
