import FurthestFailure.Proofs.Interleaving.Sharing

/-! # Runs among others

A run is safe if it does no more than it may, whatever the others do between any two of its actions,
and comes to no end but the one it should. Started where its view has kept its meaning, the run of a
grammar is safe, and the end that it should come to is the meaning of the grammar: its assemblies are
carried out in slots that nobody else knows, and what they made is shared only when it fills the slot
that has put it off, or, where another has been faster, when it is given up.
-/
namespace FurthestFailure
set_option autoImplicit false

open Set

namespace Steps
variable {α β : Type} {τ : Steps α} {f : α → Steps β} {free free' : Prop} {W W' B : Set Nat}
variable {post post' : α → Set Nat → Set Nat → Store → Prop} {t t' : Store}

/-- However the others act in between, the run does what it may and ends only as `post` says. It may
be stuck only if it is `free` to. -/
def Safe (post : α → Set Nat → Set Nat → Store → Prop) (free : Prop) :
    Steps α → Set Nat → Set Nat → Store → Prop
  | done a, W, B, t => post a W B t
  | stuck, _, _, _ => free
  | act x next, W, B, t => ∀ W' t', Store.Moves B W t W' t' →
    ∃ W'' B'', Store.Acts W' B t' W'' B'' (x.after t') ∧
      (next (x.answer t')).Safe post free W'' B'' (x.after t')

namespace Safe

theorem bind {post' : β → Set Nat → Set Nat → Store → Prop} (h : τ.Safe post free W B t)
    (hf : ∀ a W B t, post a W B t → (f a).Safe post' free' W B t) (hfree : free → free') :
    (τ >>= f).Safe post' free' W B t := by
  induction τ generalizing W B t with
  | done a => exact hf a W B t h
  | stuck => exact hfree h
  | act x next ih =>
    intro W' t' hmoves
    obtain ⟨W'', B'', hacts, hnext⟩ := h W' t' hmoves
    exact ⟨W'', B'', hacts, ih _ hnext⟩

theorem mono (h : τ.Safe post free W B t) (hpost : ∀ a W B t, post a W B t → post' a W B t)
    (hfree : free → free') : τ.Safe post' free' W B t := by
  induction τ generalizing W B t with
  | done a => exact hpost a W B t h
  | stuck => exact hfree h
  | act x next ih =>
    intro W' t' hmoves
    obtain ⟨W'', B'', hacts, hnext⟩ := h W' t' hmoves
    exact ⟨W'', B'', hacts, ih _ hnext⟩

/-- A run that waits while the others act stays safe. -/
theorem moves (h : τ.Safe post free W B t) (hm : Store.Moves B W t W' t')
    (hpost : ∀ a, post a W B t → post a W' B t') : τ.Safe post free W' B t' := by
  cases τ with
  | done a => exact hpost a h
  | stuck => exact h
  | act x next => exact fun W'' t'' hm' => h W'' t'' (hm.trans hm')

end Safe
end Steps

namespace Store
variable {s t t' : Store} {U V W W' B B' : Set Nat}

/-- A run that began in `s` with the view `U` has come this far, and the view has kept its meaning. -/
structure Amid (s : Store) (U W B : Set Nat) (t : Store) : Prop where
  parted : Parted W B t
  view : s.KeepsView U t (W ∪ B)

theorem Amid.moves (h : s.Amid U W B t) (hm : Moves B W t W' t') : s.Amid U W' B t' where
  parted := h.parted.moves hm
  view := h.view.trans (hm.keeps B Subset.rfl h.view.settled)

theorem Amid.trans (hUV : s.KeepsView U t V) (h : t.Amid V W B t') : s.Amid U W B t' where
  parted := h.parted
  view := hUV.trans h.view

end Store

namespace Assembly
variable {role : Role} {s t t' : Store} {U W W' B made made' : Set Nat} {a rest rest' : Assembly}

/-- What is left of an assembly that has come to its end. -/
def ended : Except GrammarError Grammar → Assembly
  | .ok g => .done g
  | .error e => .refuse e

/-- In a run that began in `s` with the view `U`, the assembly `a` is carried out in slots of its
own. -/
structure Amid (role : Role) (s : Store) (U : Set Nat) (a : Assembly) (W B made : Set Nat)
    (rest : Assembly) (t : Store) : Prop where
  parted : t.Parted W (B ∪ made)
  apart : ∀ i ∈ made, i ∉ B
  view : s.KeepsView U t (W ∪ B)
  halfway : Halfway role a U made rest t

namespace Amid

theorem start (h : s.Amid U W B t) (ha : a.Renamed role (.on U) .empty a) :
    Amid role s U a W B ∅ a t where
  parted := by
    rw [union_empty]
    exact h.parted
  apart := nofun
  view := h.view
  halfway := .start ha t

theorem moves (h : Amid role s U a W B made rest t) (hm : Store.Moves (B ∪ made) W t W' t') :
    Amid role s U a W' B made rest t' where
  parted := h.parted.moves hm
  apart := h.apart
  view := h.view.trans (hm.keeps B subset_union_left h.view.settled)
  halfway := h.halfway.of_same fun i hi => hm.still i (.inr hi)

/-- The assembly does one thing to its own slots. -/
theorem act (h : Amid role s U a W B made rest t) (hhalfway : Halfway role a U made' rest' t')
    (hsize : t.slots.size ≤ t'.slots.size)
    (hnew : ∀ i ∈ made', (i ∈ made ∨ t.slots.size ≤ i) ∧ i < t'.slots.size)
    (hst : ∀ i, i < t.slots.size → i ∉ made → t'.stateAt i = t.stateAt i) :
    t.Acts W (B ∪ made) W (B ∪ made') t' ∧ Amid role s U a W B made' rest' t' := by
  have hacts : t.Acts W (B ∪ made) W (B ∪ made') t' := by
    refine h.parted.acts_of_same hsize ?_ ?_ fun i hi hB => hst i hi fun hmade => hB (.inr hmade)
    · rintro i (hi | hi)
      · exact .inl (.inl hi)
      · exact (hnew i hi).1.imp .inr id
    · rintro i (hi | hi)
      · exact Nat.lt_of_lt_of_le (h.parted.below i (.inl hi)) hsize
      · exact (hnew i hi).2
  refine ⟨hacts, h.parted.acts hacts, fun i hi hB => ?_, h.view.trans ?_, hhalfway⟩
  · rcases (hnew i hi).1 with hmade | hle
    · exact h.apart i hmade hB
    · exact Nat.not_lt_of_le hle (h.parted.below i (.inl hB))
  · refine .of_same h.view.settled fun i hi => hst i (h.view.settled.lt_size hi) fun hmade => ?_
    rcases hi with hW | hB
    · exact h.parted.apart i (.inr hmade) hW
    · exact h.apart i hmade hB

/-- The assembly makes a slot. -/
theorem make (h : Amid role s U a W B made rest t) (slot : Slot)
    (hhalfway : Halfway role a U (insert t.slots.size made) rest'
      { t with slots := t.slots.push slot }) :
    t.Acts W (B ∪ made) W (B ∪ insert t.slots.size made) { t with slots := t.slots.push slot } ∧
      Amid role s U a W B (insert t.slots.size made) rest' { t with slots := t.slots.push slot } := by
  have hlt : t.slots.size < (t.slots.push slot).size := by simp
  refine h.act hhalfway hlt.le ?_ fun i hi _ => ?_
  · rintro i (rfl | hi)
    · exact ⟨.inr (Nat.le_refl _), hlt⟩
    · exact ⟨.inl hi, (h.parted.below i (.inr hi)).trans hlt⟩
  · rw [Store.stateAt_push, if_neg (Nat.ne_of_lt hi)]

end Amid
end Assembly
end FurthestFailure
