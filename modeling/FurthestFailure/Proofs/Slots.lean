import FurthestFailure.Proofs.Everywhere

/-! # What entering a slot finds

The slots of a store as a function of their numbers, and what making and filling slots does to it.
-/
namespace FurthestFailure
set_option autoImplicit false

/-- What becomes of a slot for which a definition is given. -/
def SlotState.given (g : Grammar) : SlotState → SlotState
  | .unfilled | .deferred _ => .filled g
  | .filled h => .filled h
  | .released => .released

namespace Store

variable {run : Grammar → Parser Engine Value} {store : Store} {slot : Nat}

/-- The state of the slot; a slot that was never made has none. -/
def stateAt (store : Store) (slot : Nat) : Option SlotState := (store.slots[slot]?).map Slot.state

def filled? (store : Store) (slot : Nat) : Option Grammar :=
  match store.stateAt slot with
  | some (.filled g) => some g
  | some .unfilled | some (.deferred _) | some .released | none => none

theorem bind_state? {α : Type} (f : Option SlotState → Engine α) :
    (state? slot >>= f) store = f (store.stateAt slot) store := rfl

theorem filling?_eq : filling? slot store = some (store.filled? slot, store) := by
  rw [filling?, bind_state?, filled?]
  rcases store.stateAt slot with _ | _ | _ | _ | _ <;> rfl

theorem enter_of_not_deferred (h : ∀ build, store.stateAt slot ≠ some (.deferred build)) :
    enter run slot store = some (store.filled? slot, store) := by
  rw [enter, bind_state?, filled?]
  rcases hst : store.stateAt slot with _ | _ | build | _ | _
  · rfl
  · rfl
  · exact absurd hst (h build)
  · rfl
  · rfl

theorem enter_of_deferred {build : Assembly} (h : store.stateAt slot = some (.deferred build)) :
    enter run slot store =
      (do
        let _ ← define slot (← build.performed run)
        filling? slot : Engine (Option Grammar))
      { store with slots := store.slots.modify slot Slot.countBuild } := by
  rw [enter, bind_state?, h]
  rfl

theorem Everywhere.filled {P : Grammar → Prop} {g : Grammar} (h : store.Everywhere P)
    (hg : store.filled? slot = some g) : g.Everywhere P := by
  rw [filled?] at hg
  split at hg <;> cases hg
  next hst => exact h.state hst

theorem stateAt_eq_none_iff : store.stateAt slot = none ↔ store.slots.size ≤ slot := by
  simp [stateAt]

theorem lt_size_of_stateAt {st : SlotState} (h : store.stateAt slot = some st) :
    slot < store.slots.size := by
  refine Nat.lt_of_not_le fun hle => ?_
  rw [stateAt_eq_none_iff.mpr hle] at h
  cases h

theorem exists_stateAt (h : slot < store.slots.size) : ∃ st, store.stateAt slot = some st := by
  rw [← Option.ne_none_iff_exists', ne_eq, stateAt_eq_none_iff]
  omega

theorem filled?_eq_some_iff {g : Grammar} :
    store.filled? slot = some g ↔ store.stateAt slot = some (.filled g) := by
  rw [filled?]
  rcases store.stateAt slot with _ | _ | _ | _ | _ <;> simp

theorem stateAt_push (s : Slot) (i : Nat) :
    stateAt { store with slots := store.slots.push s } i =
      if i = store.slots.size then some s.state else store.stateAt i := by
  rw [stateAt, Array.getElem?_push]
  split
  · rfl
  · rfl

theorem stateAt_modify {f : Slot → Slot} (hf : ∀ s, (f s).state = s.state) (i : Nat) :
    stateAt { store with slots := store.slots.modify slot f } i = store.stateAt i := by
  rw [stateAt, Array.getElem?_modify, stateAt]
  split
  · simp [Function.comp_def, hf]
  · rfl

/-- The store after a definition. -/
def defined (store : Store) (slot : Nat) (g : Grammar) : Store :=
  match (store.slots[slot]?).bind (·.fill? g) with
  | some s => { store with slots := store.slots.set! slot s }
  | none => store

theorem define_eq (g : Grammar) : define slot g store =
    some (((store.slots[slot]?).bind (·.fill? g)).isSome, store.defined slot g) := by
  rw [define, defined]
  split
  · next h => rw [h]; rfl
  · next h => rw [h]; rfl

@[simp] theorem size_defined (g : Grammar) : (store.defined slot g).slots.size = store.slots.size := by
  rw [defined]
  split
  · simp
  · rfl

theorem stateAt_defined (g : Grammar) (i : Nat) : (store.defined slot g).stateAt i =
    if i = slot then (store.stateAt slot).map (.given g) else store.stateAt i := by
  by_cases hi : i = slot
  · rw [if_pos hi, hi, defined, stateAt, stateAt]
    rcases hslot : store.slots[slot]? with _ | s
    · simp [hslot]
    · obtain ⟨hlt, rfl⟩ := Array.getElem?_eq_some_iff.mp hslot
      rcases hstate : store.slots[slot].state with _ | _ | _ | _ <;>
        simp [Slot.fill?, hstate, SlotState.given, hlt]
  · rw [if_neg hi, defined]
    split
    · simp [stateAt, Ne.symm hi]
    · rfl

/-- The store after the beginning of a build. -/
def counted (store : Store) (slot : Nat) : Store :=
  { store with slots := store.slots.modify slot Slot.countBuild }

theorem stateAt_counted (i : Nat) : (store.counted slot).stateAt i = store.stateAt i :=
  stateAt_modify (f := Slot.countBuild) (fun _ => rfl) i

theorem enter_of_performed {build : Assembly} {g : Grammar} {after : Store}
    (h : store.stateAt slot = some (.deferred build))
    (hb : build.performed run (store.counted slot) = some (g, after)) :
    enter run slot store =
      some ((after.defined slot g).filled? slot, after.defined slot g) := by
  rw [enter_of_deferred h]
  have hfilling : (do let _ ← define slot g; filling? slot : Engine (Option Grammar)) after =
      some ((after.defined slot g).filled? slot, after.defined slot g) := by
    rw [← filling?_eq]
    exact congrArg (fun r : Option (Bool × Store) => r.bind fun p => filling? slot p.2)
      (define_eq g)
  rw [← hfilling]
  exact congrArg (fun r : Option (Grammar × Store) => r.bind fun p =>
    (do let _ ← define slot p.1; filling? slot : Engine (Option Grammar)) p.2) hb

theorem exists_performed_of_enter {build : Assembly} {r : Option Grammar × Store}
    (h : store.stateAt slot = some (.deferred build)) (hr : enter run slot store = some r) :
    ∃ g after, build.performed run (store.counted slot) = some (g, after) := by
  rw [enter_of_deferred h] at hr
  obtain ⟨⟨g, after⟩, hb, -⟩ := Option.bind_eq_some_iff.mp hr
  exact ⟨g, after, hb⟩

/-- Whatever is built on the way, an entered slot yields what it holds afterwards. -/
theorem eq_filled?_of_enter {found : Option Grammar} {after : Store}
    (h : enter run slot store = some (found, after)) : found = after.filled? slot := by
  by_cases hdeferred : ∃ build, store.stateAt slot = some (.deferred build)
  · obtain ⟨build, hst⟩ := hdeferred
    obtain ⟨g, built, hb⟩ := exists_performed_of_enter hst h
    rw [enter_of_performed hst hb] at h
    cases h
    rfl
  · have hnot : ∀ build, store.stateAt slot ≠ some (.deferred build) := by
      intro build hb
      exact hdeferred ⟨build, hb⟩
    rw [enter_of_not_deferred hnot] at h
    cases h
    rfl

end Store

namespace Assembly

theorem perform_deferred (run : Grammar → Parser Engine Value) (name : String) (keeps : List Nat)
    (build next : Nat → Assembly) (store : Store) :
    (Assembly.deferred name keeps build next).perform run store =
      (next store.slots.size).perform run { store with
        slots := store.slots.push
          { state := .deferred (build store.slots.size), name := some name
            keeps := store.slots.size :: keeps } } := by
  have hmodify : (store.slots.push { state := .unfilled, name := some name }).modify store.slots.size
      (fun s => { s with state := .deferred (build store.slots.size)
                         keeps := store.slots.size :: keeps }) =
        store.slots.push
          { state := .deferred (build store.slots.size), name := some name
            keeps := store.slots.size :: keeps } := by
    refine Array.ext (by simp) fun i hi _ => ?_
    simp only [Array.getElem_modify, Array.getElem_push]
    split
    · next h => subst h; simp
    · next h =>
      have : i ≠ store.slots.size := fun he => h he.symm
      have : i < store.slots.size := by simp at hi; omega
      simp [this]
  rw [← hmodify]
  rfl

theorem perform_define (run : Grammar → Parser Engine Value) (slot : Nat) (g : Grammar)
    (next : Assembly) (store : Store) :
    (Assembly.define slot g next).perform run store = next.perform run (store.defined slot g) := by
  rw [perform]
  exact congrArg (fun r : Option (Bool × Store) => r.bind fun p => next.perform run p.2)
    (Store.define_eq g)

end Assembly

/-- What is said of a store goes on holding while slots are made, built and filled, as long as all
that they get is of the kind, and it says that all that they hold is. -/
structure Store.Lasting (P : Grammar → Prop) (Q : Store → Prop) : Prop where
  push {s : Store} {a : Slot} : Q s → a.state.Everywhere P →
    Q { s with slots := s.slots.push a }
  counted {s : Store} (slot : Nat) : Q s → Q (s.counted slot)
  defined {s : Store} {g : Grammar} (slot : Nat) : Q s → g.Everywhere P → Q (s.defined slot g)
  publish {s : Store} (named : List (String × Grammar)) : Q s → Q { s with published := named }
  state {s : Store} {slot : Nat} {st : SlotState} : Q s → s.stateAt slot = some st →
    st.Everywhere P

namespace Store
variable {P : Grammar → Prop}

theorem lasting_everywhere : Lasting P (Store.Everywhere P) where
  push hs ha := hs.push ha
  counted slot hs := hs.modify slot fun _ h => h
  defined {_ g} _ hs hg := hs.define hg (define_eq g)
  publish _ hs := hs
  state hs hst := hs.state hst

/-- A state of one slot that filling does not undo lasts. -/
theorem lasting_stateAt {K : SlotState → Prop} (hK : ∀ st g, K st → K (st.given g)) (i : Nat) :
    Lasting (fun _ => True) fun s => ∃ st, s.stateAt i = some st ∧ K st where
  push := by
    rintro s a ⟨st, hst, hk⟩ -
    have hi : i ≠ s.slots.size := Nat.ne_of_lt (lt_size_of_stateAt hst)
    exact ⟨st, by rw [stateAt_push, if_neg hi, hst], hk⟩
  counted slot := by
    rintro ⟨st, hst, hk⟩
    exact ⟨st, by rw [stateAt_counted, hst], hk⟩
  defined {s} g slot := by
    rintro ⟨st, hst, hk⟩ -
    by_cases hi : i = slot
    · subst hi
      exact ⟨st.given g, by rw [stateAt_defined, if_pos rfl, hst, Option.map_some], hK st g hk⟩
    · exact ⟨st, by rw [stateAt_defined, if_neg hi, hst], hk⟩
  publish _ h := h
  state := by
    rintro s slot st - -
    exact st.everywhere_true

end Store
end FurthestFailure
