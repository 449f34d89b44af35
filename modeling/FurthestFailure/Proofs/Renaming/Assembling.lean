import FurthestFailure.Proofs.Renaming

/-! # Builders carried out side by side

Carried out on two stores, two builders that are renamings of each other make equally many slots,
change no others, and end with grammars that are renamings of each other. The link then also connects
the slots that were made, one by one in the order of their making; what these hold is a renaming too.
-/
namespace FurthestFailure
set_option autoImplicit false

/-- Links `count` further slots, from `m` on and from `n` on. -/
def Link.beside (ρ : Link) (m n count : Nat) : Link := fun i j =>
  ρ i j ∨ ∃ k, k < count ∧ i = m + k ∧ j = n + k

namespace Link
variable {ρ : Link} {m n count : Nat}

theorem le_beside : ∀ i j, ρ i j → ρ.beside m n count i j := fun _ _ h => .inl h

theorem beside_le {count' : Nat} (h : count ≤ count') :
    ∀ i j, ρ.beside m n count i j → ρ.beside m n count' i j := by
  rintro i j (hρ | ⟨k, hk, hi, hj⟩)
  · exact .inl hρ
  · exact .inr ⟨k, Nat.lt_of_lt_of_le hk h, hi, hj⟩

theorem add_beside : ∀ i j, (ρ.beside m n count).add (m + count) (n + count) i j →
    ρ.beside m n (count + 1) i j := by
  rintro i j (h | ⟨rfl, rfl⟩)
  · exact beside_le (Nat.le_succ count) i j h
  · exact .inr ⟨count, Nat.lt_succ_self count, rfl, rfl⟩

end Link

inductive SlotState.Renamed (ρ : Link) : SlotState → SlotState → Prop
  | unfilled : Renamed ρ .unfilled .unfilled
  | deferred {build build' : Assembly} (h : build.Renamed .builder ρ .empty build') :
    Renamed ρ (.deferred build) (.deferred build')
  | filled {g g' : Grammar} (h : g.Renamed ρ g') : Renamed ρ (.filled g) (.filled g')
  | released : Renamed ρ .released .released

theorem SlotState.Renamed.mono {ρ ρ' : Link} {st st' : SlotState} (h : st.Renamed ρ st')
    (hρ : ∀ i j, ρ i j → ρ' i j) : st.Renamed ρ' st' := by
  cases h with
  | unfilled => exact .unfilled
  | deferred h => exact .deferred (h.mono hρ fun _ _ h => h)
  | filled h => exact .filled (h.mono hρ)
  | released => exact .released

theorem SlotState.Renamed.given {ρ : Link} {st st' : SlotState} {g g' : Grammar}
    (h : st.Renamed ρ st') (hg : g.Renamed ρ g') : (st.given g).Renamed ρ (st'.given g') := by
  cases h with
  | unfilled | deferred => exact .filled hg
  | filled h => exact .filled h
  | released => exact .released

/-- Both slots are there, and hold the same up to the link. -/
def Store.HoldAlike (ρ : Link) (s t : Store) (i j : Nat) : Prop :=
  ∃ st st', s.stateAt i = some st ∧ t.stateAt j = some st' ∧ st.Renamed ρ st'

/-- From the stores `s` and `t` on, `count` slots were made on either side and no others changed. -/
structure Store.Grown (ρ : Link) (s t : Store) (count : Nat) (s' t' : Store) : Prop where
  left_size : s'.slots.size = s.slots.size + count
  right_size : t'.slots.size = t.slots.size + count
  left_old : ∀ i, i < s.slots.size → s'.stateAt i = s.stateAt i
  right_old : ∀ j, j < t.slots.size → t'.stateAt j = t.stateAt j
  made : ∀ k, k < count → Store.HoldAlike (ρ.beside s.slots.size t.slots.size count) s' t'
    (s.slots.size + k) (t.slots.size + k)

namespace Store
variable {ρ : Link} {s t s' t' : Store} {count : Nat}

theorem HoldAlike.mono {ρ' : Link} {i j : Nat} (h : HoldAlike ρ s t i j)
    (hρ : ∀ i j, ρ i j → ρ' i j) : HoldAlike ρ' s t i j := by
  obtain ⟨st, st', hs, ht, hst⟩ := h
  exact ⟨st, st', hs, ht, hst.mono hρ⟩

namespace Grown

theorem refl (ρ : Link) (s t : Store) : Grown ρ s t 0 s t where
  left_size := rfl
  right_size := rfl
  left_old _ _ := rfl
  right_old _ _ := rfl
  made k hk := absurd hk (Nat.not_lt_zero k)

theorem add_le (h : Grown ρ s t count s' t') : ∀ i j,
    (ρ.beside s.slots.size t.slots.size count).add s'.slots.size t'.slots.size i j →
      ρ.beside s.slots.size t.slots.size (count + 1) i j := by
  rw [h.left_size, h.right_size]
  exact Link.add_beside

theorem push (h : Grown ρ s t count s' t') {a b : Slot}
    (hab : a.state.Renamed (ρ.beside s.slots.size t.slots.size (count + 1)) b.state) :
    Grown ρ s t (count + 1) { s' with slots := s'.slots.push a }
      { t' with slots := t'.slots.push b } where
  left_size := by simp [h.left_size, Nat.add_assoc]
  right_size := by simp [h.right_size, Nat.add_assoc]
  left_old i hi := by
    have := h.left_size
    rw [stateAt_push, if_neg (by omega), h.left_old i hi]
  right_old j hj := by
    have := h.right_size
    rw [stateAt_push, if_neg (by omega), h.right_old j hj]
  made k hk := by
    rcases Nat.lt_or_eq_of_le (Nat.le_of_lt_succ hk) with hlt | rfl
    · obtain ⟨st, st', hs, ht, hst⟩ := h.made k hlt
      refine ⟨st, st', ?_, ?_, hst.mono (Link.beside_le (Nat.le_succ count))⟩
      · have := h.left_size
        rw [stateAt_push, if_neg (by omega), hs]
      · have := h.right_size
        rw [stateAt_push, if_neg (by omega), ht]
    · refine ⟨a.state, b.state, ?_, ?_, hab⟩
      · rw [stateAt_push, if_pos h.left_size.symm]
      · rw [stateAt_push, if_pos h.right_size.symm]

theorem defined (h : Grown ρ s t count s' t') {k : Nat} {g g' : Grammar}
    (hg : g.Renamed (ρ.beside s.slots.size t.slots.size count) g') :
    Grown ρ s t count (s'.defined (s.slots.size + k) g) (t'.defined (t.slots.size + k) g') where
  left_size := by rw [size_defined, h.left_size]
  right_size := by rw [size_defined, h.right_size]
  left_old i hi := by rw [stateAt_defined, if_neg (by omega), h.left_old i hi]
  right_old j hj := by rw [stateAt_defined, if_neg (by omega), h.right_old j hj]
  made l hl := by
    obtain ⟨st, st', hs, ht, hst⟩ := h.made l hl
    by_cases hkl : l = k
    · subst hkl
      refine ⟨st.given g, st'.given g', ?_, ?_, hst.given hg⟩
      · rw [stateAt_defined, if_pos rfl, hs, Option.map_some]
      · rw [stateAt_defined, if_pos rfl, ht, Option.map_some]
    · refine ⟨st, st', ?_, ?_, hst⟩
      · rw [stateAt_defined, if_neg (by omega), hs]
      · rw [stateAt_defined, if_neg (by omega), ht]

theorem of_slots_eq (h : Grown ρ s t count s' t') {s'' t'' : Store} (hs : s''.slots = s'.slots)
    (ht : t''.slots = t'.slots) : Grown ρ s t count s'' t'' := by
  have hstate : ∀ i, s''.stateAt i = s'.stateAt i := fun i => by rw [stateAt, stateAt, hs]
  have hstate' : ∀ i, t''.stateAt i = t'.stateAt i := fun i => by rw [stateAt, stateAt, ht]
  exact {
    left_size := by rw [hs, h.left_size]
    right_size := by rw [ht, h.right_size]
    left_old := fun i hi => by rw [hstate, h.left_old i hi]
    right_old := fun j hj => by rw [hstate', h.right_old j hj]
    made := fun k hk => by
      obtain ⟨st, st', hs, ht, hst⟩ := h.made k hk
      exact ⟨st, st', by rw [hstate, hs], by rw [hstate', ht], hst⟩ }

end Grown
end Store

namespace Assembly
variable {ρ : Link} {s t : Store}

-- No grammar is tried, so it does not matter how grammars would be run.
theorem perform_eq (run run' : Grammar → Parser Engine Value) :
    ∀ {a b : Assembly} {ρ own : Link}, a.Renamed .builder ρ own b → a.perform run = a.perform run'
  | .done _, _, _, _, _ | .refuse _, _, _, _, _ => rfl
  | .placeholder next, _, _, _, ⟨_, _, hnext⟩ => by
    have h : ∀ i, (next i).perform run = (next i).perform run' := fun i =>
      perform_eq run run' (hnext i i)
    simp only [perform, h]
  | .define slot g next, _, _, _, ⟨_, _, _, _, _, _, hnext⟩ => by
    have h : next.perform run = next.perform run' := perform_eq run run' hnext
    simp only [perform, h]
  | .deferred _ _ _ next, _, _, _, ⟨_, _, _, _, _, hnext⟩ => by
    have h : ∀ i, (next i).perform run = (next i).perform run' := fun i =>
      perform_eq run run' (hnext i i)
    simp only [perform, h]
  | .attempt _ _ _, _, _, _, h => (not_renamed_attempt h).elim
  | .publish _ _ next, _, _, _, ⟨_, _, _, _, hnext⟩ => by
    have h : next.perform run = next.perform run' := perform_eq run run' hnext
    simp only [perform, h]

/-- How two builders end that were carried out side by side. -/
inductive EndAlike (ρ : Link) (s t : Store) : Option (Except GrammarError Grammar × Store) →
    Option (Except GrammarError Grammar × Store) → Prop
  | refused {e : GrammarError} {s' t' : Store} :
    EndAlike ρ s t (some (.error e, s')) (some (.error e, t'))
  | done {g h : Grammar} {count : Nat} {s' t' : Store} (hst : Store.Grown ρ s t count s' t')
    (hg : g.Renamed (ρ.beside s.slots.size t.slots.size count) h) :
    EndAlike ρ s t (some (.ok g, s')) (some (.ok h, t'))

-- By recursion on the assembly, in the middle of its work: it has made `count` slots.
theorem perform_renamed (run run' : Grammar → Parser Engine Value) :
    ∀ {a b : Assembly} {own : Link} {count : Nat} {s' t' : Store},
      a.Renamed .builder (ρ.beside s.slots.size t.slots.size count) own b →
      (∀ i j, own i j → ∃ k, i = s.slots.size + k ∧ j = t.slots.size + k) →
      Store.Grown ρ s t count s' t' → EndAlike ρ s t (a.perform run s') (b.perform run' t')
  | .done g, _, _, _, _, _, ⟨h, hb, hg⟩, _, hst => by
    subst hb
    exact .done hst hg
  | .refuse e, _, _, _, _, _, hb, _, _ => by
    subst hb
    exact .refused
  | .placeholder next, _, own, count, s', t', ⟨next', hb, hnext⟩, hown, hst => by
    subst hb
    have hn := (hnext s'.slots.size t'.slots.size).mono hst.add_le fun _ _ h => h
    have hown' : ∀ i j, own.add s'.slots.size t'.slots.size i j →
        ∃ k, i = s.slots.size + k ∧ j = t.slots.size + k := by
      rintro i j (hij | ⟨rfl, rfl⟩)
      · exact hown i j hij
      · exact ⟨count, hst.left_size, hst.right_size⟩
    have hpushed := hst.push (a := { state := .unfilled }) (b := { state := .unfilled }) .unfilled
    have h := perform_renamed run run' hn hown' hpushed
    exact h
  | .define slot g next, _, own, count, s', t', ⟨slot', g', next', hb, hs, hg, hnext⟩, hown,
      hst => by
    subst hb
    obtain ⟨k, rfl, rfl⟩ := hown slot slot' hs
    rw [perform_define, perform_define]
    exact perform_renamed run run' hnext hown (hst.defined (k := k) hg)
  | .deferred name keeps build next, _, own, count, s', t', ⟨keeps', build', next', hb, hbuild, hnext⟩,
      hown, hst => by
    subst hb
    rw [perform_deferred, perform_deferred]
    refine perform_renamed run run' ((hnext _ _).mono hst.add_le fun _ _ h => h) hown ?_
    exact hst.push (.deferred ((hbuild _ _).mono hst.add_le fun _ _ h => h))
  | .attempt _ _ _, _, _, _, _, _, h, _, _ => (not_renamed_attempt h).elim
  | .publish name g next, _, _, _, s', t', ⟨g', next', hb, _, hnext⟩, hown, hst => by
    subst hb
    have hpublished : Store.Grown ρ s t _ { s' with published := (name, g) :: s'.published }
        { t' with published := (name, g') :: t'.published } := hst.of_slots_eq rfl rfl
    have h := perform_renamed run run' hnext hown hpublished
    exact h

theorem perform_alike (run run' : Grammar → Parser Engine Value) {a b : Assembly}
    (h : a.Renamed .builder ρ .empty b) : EndAlike ρ s t (a.perform run s) (b.perform run' t) := by
  have hbeside : a.Renamed .builder (ρ.beside s.slots.size t.slots.size 0) .empty b :=
    h.mono Link.le_beside fun _ _ h => h
  exact perform_renamed run run' hbeside nofun (.refl ρ s t)

end Assembly
end FurthestFailure
