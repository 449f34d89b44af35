import FurthestFailure.Proofs.Reading

/-! # Leaves go on through the text

A leaf of the library that succeeds has either taken nothing, and stays where it was, or it leaves
less unread and stands at a later byte. This also holds of a pattern that matches further on: what
it takes is then as long as its match.
-/
namespace FurthestFailure
set_option autoImplicit false

theorem Text.length_dropBytes_le (n : Nat) (cs : List Char) :
    (dropBytes n cs).length ≤ cs.length := by
  induction cs generalizing n with
  | nil => cases n <;> simp [dropBytes]
  | cons c cs ih =>
    cases n with
    | zero => simp
    | succ n =>
      rw [dropBytes]
      split
      · exact Nat.le_succ_of_le (ih _)
      · exact Nat.zero_le _

theorem Text.length_dropBytes_lt {n : Nat} {cs : List Char} (hn : 0 < n) (hcs : cs ≠ []) :
    (dropBytes n cs).length < cs.length := by
  obtain ⟨n, rfl⟩ : ∃ k, n = k + 1 := ⟨n - 1, by omega⟩
  obtain ⟨c, cs, rfl⟩ := List.exists_cons_of_ne_nil hcs
  rw [dropBytes]
  split
  · exact Nat.lt_succ_of_le (length_dropBytes_le _ cs)
  · exact Nat.succ_pos _

namespace Cursor

/-- The second cursor is the first one, or it is further on in the text. -/
def Onward (c d : Cursor) : Prop :=
  d = c ∨ d.rest.length < c.rest.length ∧ c.position.index < d.position.index

variable {c d e : Cursor}

theorem Onward.refl (c : Cursor) : c.Onward c := .inl rfl

theorem Onward.trans (h : c.Onward d) (h' : d.Onward e) : c.Onward e := by
  rcases h with rfl | ⟨hrest, hindex⟩
  · exact h'
  · rcases h' with rfl | ⟨hrest', hindex'⟩
    · exact .inr ⟨hrest, hindex⟩
    · exact .inr ⟨Nat.lt_trans hrest' hrest, Nat.lt_trans hindex hindex'⟩

theorem Onward.index_eq_iff (h : c.Onward d) : d.position.index = c.position.index ↔ d = c := by
  rcases h with rfl | ⟨_, hindex⟩
  · simp
  · constructor
    · intro heq
      omega
    · rintro rfl
      rfl

theorem Onward.length_lt (h : c.Onward d) (hne : d ≠ c) : d.rest.length < c.rest.length :=
  (h.resolve_left hne).1

theorem Onward.length_le (h : c.Onward d) : d.rest.length ≤ c.rest.length := by
  rcases h with rfl | ⟨hrest, _⟩
  · exact Nat.le_refl _
  · exact Nat.le_of_lt hrest

/-- Who has gone on does not come back. -/
theorem Onward.eq_of_back (h : c.Onward d) (h' : d.Onward e) (he : e = c) : d = c ∧ e = d := by
  subst he
  rcases h with rfl | ⟨hrest, _⟩
  · exact ⟨rfl, rfl⟩
  · have hle := h'.length_le
    omega

theorem onward_advance {matched : List Char} (h : matched ≠ [] → c.rest ≠ []) :
    c.Onward (c.advance matched) := by
  by_cases hm : matched = []
  · subst hm
    rw [advance_nil]
    exact .refl c
  · have hpos : 0 < Text.byteLength matched :=
      Nat.pos_of_ne_zero fun hzero => hm (Text.byteLength_eq_zero_iff.mp hzero)
    refine .inr ⟨Text.length_dropBytes_lt hpos (h hm), ?_⟩
    simp only [advance, Position.advancedOver_index]
    omega

end Cursor

theorem Regex.Pattern.Found.whole_eq_nil {f : Regex.Pattern.Found} (h : f.text = []) :
    f.whole = [] := by
  simp [Regex.Pattern.Found.whole, Regex.Pattern.Found.piece, h]

/-- No parser from outside the library. -/
def Leaf.IsOwn : Leaf → Prop
  | custom _ => False
  | _ => True

namespace Leaf
variable {l : Leaf} {c : Cursor} {u : Success Value}

theorem onward_of_library (hl : l.IsLibrary) (h : l.run c = .success u) : c.Onward u.rest := by
  rcases run_cases hl c with ⟨matched, v, hprefix, hrun⟩ | hrun
  · rw [hrun] at h
    cases h
    refine Cursor.onward_advance fun hm hrest => hm ?_
    rw [hrest] at hprefix
    exact List.prefix_nil.mp hprefix
  · rw [hrun] at h
    cases h

theorem onward (hl : l.IsOwn) (h : l.run c = .success u) : c.Onward u.rest := by
  cases l with
  | custom run => exact hl.elim
  | pattern p group =>
    rw [run, patternAt] at h
    cases hfind : p.find? c.rest with
    | none =>
      rw [hfind] at h
      cases h
    | some f =>
      rw [hfind] at h
      cases h
      refine Cursor.onward_advance fun hwhole hrest => hwhole ?_
      obtain ⟨b, _, rfl⟩ := Option.map_eq_some_iff.mp hfind
      exact Regex.Pattern.Found.whole_eq_nil hrest
  | _ =>
    refine onward_of_library ?_ h
    trivial

end Leaf
end FurthestFailure
