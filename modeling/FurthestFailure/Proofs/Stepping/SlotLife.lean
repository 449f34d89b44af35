import FurthestFailure.Proofs.Stepping.Logs

/-! # The life of a slot

Assemblies are carried out, grammars are run and slots are defined, one after the other and as often as
one likes. Through all of it a slot is filled once and keeps what it has got. A slot that was made with
a builder builds when it is first entered, and only then; whoever enters it later finds what was built.
-/
namespace FurthestFailure
set_option autoImplicit false

/-- What can be asked for from outside. -/
inductive Steps.Invoked : {α : Type} → Steps α → Prop
  | assembling (depth : Nat) (a : Assembly) : Invoked (a.steps (Grammar.stepsWithin depth))
  | running (depth : Nat) (g : Grammar) (c : Cursor) : Invoked (g.stepsWithin depth c)
  | defining (slot : Nat) (g : Grammar) : Invoked (.act (.define slot g) .done)

/-- The log of invocations that have come to their ends, from the empty store on. -/
inductive Happened : List Action → Prop
  | nothing : Happened []
  | invoked {log own : List Action} {α : Type} {τ : Steps α} {a : α} (h : Happened log)
    (hτ : τ.Invoked) (hown : τ.Takes (Store.replay {} log) own (.done a)) : Happened (log ++ own)

/-- As `Happened`, but the last invocation may be in the middle of its run. -/
def Underway (log : List Action) : Prop :=
  ∃ before own, log = before ++ own ∧ Happened before ∧
    ∃ (α : Type) (τ τ' : Steps α), τ.Invoked ∧ τ.Takes (Store.replay {} before) own τ'

/-- No definition of the slot is accepted. -/
def Unbound (i : Nat) : Store → List Action → Prop
  | _, [] => True
  | s, x :: log =>
    (∀ g, x = .define i g → (Action.define i g).answer s = false) ∧ Unbound i (x.after s) log

/-- Where the slot is first entered, and so the build begins, the builder does not come to enter the slot
itself. -/
def Assembly.NeverEnters (i : Nat) (build : Assembly) (s : Store) (log : List Action) : Prop :=
  ∀ before own, log = before ++ .enter i :: own → .enter i ∉ before → ∀ depth during τ,
    (build.stepped (Grammar.stepsWithin depth)).Takes (s.replay (before ++ [.enter i])) during τ →
      .enter i ∉ during

/-- The log goes on from a store whose slot puts off `build`. The builder is at work once if the slot
is entered, and otherwise never. No other entering comes while it is, and what it makes is in the slot
from then on. -/
structure BuiltOnce (i : Nat) (build : Assembly) (s : Store) (log : List Action) : Prop where
  never : .enter i ∉ log → ((s.replay log).slots[i]?).map Slot.builds = some 0
  once : .enter i ∈ log → ((s.replay log).slots[i]?).map Slot.builds = some 1
  first : .enter i ∈ log → ∃ before own, log = before ++ .enter i :: own ∧ .enter i ∉ before ∧
    ((.enter i ∉ own ∧ ∃ depth τ, (build.stepped (Grammar.stepsWithin depth)).Takes
        (s.replay (before ++ [.enter i])) own τ) ∨
      ∃ depth during g later, own = during ++ .finish i g :: later ∧ .enter i ∉ during ∧
        (build.stepped (Grammar.stepsWithin depth)).Takes
          (s.replay (before ++ [.enter i])) during (.done g) ∧
        ∀ seen rest, later = seen ++ rest →
          (s.replay (before ++ .enter i :: (during ++ .finish i g :: seen))).stateAt i =
            some (.filled g))

theorem Steps.Invoked.nests {α : Type} {τ : Steps α} (h : τ.Invoked) (i : Nat) : τ.Nests i := by
  cases h with
  | assembling depth a => exact Nests.steps (Nests.stepsWithin depth) a
  | running depth g c => exact Nests.stepsWithin depth g c
  | defining slot g => exact Nests.act nofun nofun Nests.done

theorem Happened.nested {log : List Action} (h : Happened log) (i : Nat) : Nested i true {} log := by
  induction h with
  | nothing => exact .nil _ _
  | invoked _ hτ hown ih => exact ih.append rfl ((hτ.nests i _ _ _ hown).2 _ rfl)

theorem Underway.nested {log : List Action} (h : Underway log) (i : Nat) : Nested i false {} log := by
  obtain ⟨before, own, rfl, hbefore, α, τ, τ', hτ, hown⟩ := h
  exact (hbefore.nested i).append rfl (hτ.nests i _ _ _ hown).1

section
variable {i : Nat} {s : Store} {a : Slot} {log log' : List Action}

theorem Unbound.of_append (h : Unbound i s (log ++ log')) :
    Unbound i s log ∧ Unbound i (s.replay log) log' := by
  induction log generalizing s with
  | nil => exact ⟨trivial, h⟩
  | cons x log ih => exact ⟨⟨h.1, (ih h.2).1⟩, (ih h.2).2⟩

namespace Store

theorem getElem?_counted (slot : Nat) : (s.counted slot).slots[i]? =
    if slot = i then (s.slots[i]?).map Slot.countBuild else s.slots[i]? := by
  rw [counted, Array.getElem?_modify]

theorem getElem?_defined (slot : Nat) (g : Grammar) : (s.defined slot g).slots[i]? =
    if slot = i then (s.slots[i]?).map fun a => (a.fill? g).getD a else s.slots[i]? := by
  rw [defined]
  split
  · next b hb =>
    obtain ⟨a, ha, hfill⟩ := Option.bind_eq_some_iff.mp hb
    rw [Array.set!_eq_setIfInBounds, Array.getElem?_setIfInBounds]
    split
    · next hslot =>
      subst hslot
      obtain ⟨hlt, -⟩ := Array.getElem?_eq_some_iff.mp ha
      rw [if_pos hlt, ha, Option.map_some, hfill]
      rfl
    · rfl
  · next hb =>
    split
    · next hslot =>
      subst hslot
      cases ha : s.slots[slot]? with
      | none => rfl
      | some a =>
        rw [ha, Option.bind_some] at hb
        simp [hb]
    · rfl

theorem stateAt_of_getElem? (hi : s.slots[i]? = some a) : s.stateAt i = some a.state := by
  rw [stateAt, hi, Option.map_some]

end Store

namespace Action

/-- Only what is done with the slot itself changes it. -/
theorem getElem?_after_of_ne {x : Action} (hi : s.slots[i]? = some a) (henter : x ≠ .enter i)
    (hfinish : ∀ g, x ≠ .finish i g) (hdefine : ∀ g, x ≠ .define i g) :
    (x.after s).slots[i]? = some a := by
  cases x with
  | enter slot =>
    have hslot : slot ≠ i := fun h => henter (by rw [h])
    rw [after]
    split
    · rw [Store.getElem?_counted, if_neg hslot, hi]
    · exact hi
    · exact hi
    · exact hi
    · exact hi
  | make slot =>
    obtain ⟨hlt, -⟩ := Array.getElem?_eq_some_iff.mp hi
    rw [after, Array.getElem?_push, if_neg (Nat.ne_of_lt hlt), hi]
  | define slot g =>
    have hslot : slot ≠ i := fun h => hdefine g (by rw [h])
    rw [after, Store.getElem?_defined, if_neg hslot, hi]
  | finish slot g =>
    have hslot : slot ≠ i := fun h => hfinish g (by rw [h])
    rw [after, Store.getElem?_defined, if_neg hslot, hi]
  | publish name g => exact hi

/-- A filled slot stays as it is. -/
theorem getElem?_after_of_filled (x : Action) {g : Grammar} (hi : s.slots[i]? = some a)
    (ha : a.state = .filled g) : (x.after s).slots[i]? = some a := by
  have hdefined : ∀ h, (s.defined i h).slots[i]? = some a := by
    intro h
    rw [Store.getElem?_defined, if_pos rfl, hi, Option.map_some, Slot.fill?, ha]
    rfl
  by_cases henter : x = .enter i
  · subst henter
    have hst := Store.stateAt_of_getElem? hi
    rw [ha] at hst
    simp only [after, hst, hi]
  · by_cases hfinish : ∃ h, x = .finish i h
    · obtain ⟨h, rfl⟩ := hfinish
      exact hdefined h
    · by_cases hdefine : ∃ h, x = .define i h
      · obtain ⟨h, rfl⟩ := hdefine
        exact hdefined h
      · exact getElem?_after_of_ne hi henter (fun h hx => hfinish ⟨h, hx⟩) fun h hx => hdefine ⟨h, hx⟩

/-- A definition of a filled slot is refused, and changes nothing. -/
theorem define_of_filled {g : Grammar} (h : Grammar) (hs : s.stateAt i = some (.filled g)) :
    (Action.define i h).answer s = false ∧ (Action.define i h).after s = s := by
  obtain ⟨a, ha, hst⟩ := Option.map_eq_some_iff.mp hs
  have hfill : (s.slots[i]?).bind (·.fill? h) = none := by
    rw [ha, Option.bind_some, Slot.fill?, hst]
  constructor
  · rw [answer, hfill]
    rfl
  · rw [after, Store.defined, hfill]

end Action

theorem Store.getElem?_replay_of_filled {g : Grammar} (hi : s.slots[i]? = some a)
    (ha : a.state = .filled g) : (s.replay log).slots[i]? = some a := by
  induction log generalizing s with
  | nil => exact hi
  | cons x log ih => exact ih (x.getElem?_after_of_filled hi ha)

theorem Action.enter_deferred {build build' : Assembly} (hi : s.slots[i]? = some a)
    (ha : a.state = .deferred build) (hs : s.stateAt i = some (.deferred build')) :
    build' = build ∧ ((Action.enter i).after s).slots[i]? = some a.countBuild := by
  have hst := Store.stateAt_of_getElem? hi
  rw [hs, ha] at hst
  cases hst
  refine ⟨rfl, ?_⟩
  simp only [Action.after, hs, Store.getElem?_counted, if_pos, hi, Option.map_some]

theorem Assembly.NeverEnters.of_not_mem {build : Assembly} (h : .enter i ∉ log) :
    build.NeverEnters i s log := by
  rintro before own rfl -
  exact absurd (List.mem_append_right _ (.head _)) h

/-- A slot that has put something off has not been entered, or its only build is on the way, or what
was built is there. -/
theorem Nested.course {closed : Bool} {build : Assembly} (h : Nested i closed s log)
    (hi : s.slots[i]? = some a) (ha : a.state = .deferred build) (hbound : Unbound i s log)
    (hself : build.NeverEnters i s log) :
    (.enter i ∉ log ∧ (s.replay log).slots[i]? = some a) ∨
      ∃ before own, log = before ++ .enter i :: own ∧ .enter i ∉ before ∧
        ((.enter i ∉ own ∧ (s.replay log).slots[i]? = some a.countBuild ∧
          ∃ depth τ, (build.stepped (Grammar.stepsWithin depth)).Takes
            (s.replay (before ++ [.enter i])) own τ) ∨
        ∃ depth during g later, own = during ++ .finish i g :: later ∧ .enter i ∉ during ∧
          (build.stepped (Grammar.stepsWithin depth)).Takes
            (s.replay (before ++ [.enter i])) during (.done g) ∧
          (s.replay (before ++ .enter i :: (during ++ [.finish i g]))).slots[i]? =
            some { a.countBuild with state := .filled g }) := by
  induction h generalizing a with
  | nil => exact .inl ⟨List.not_mem_nil, hi⟩
  | @other _ s x log hopen hclose h ih =>
    have hs : s.stateAt i = some (.deferred build) := by
      rw [Store.stateAt_of_getElem? hi, ha]
    have henter : x ≠ .enter i := fun hx => hopen hx build hs
    have hdefine : ∀ g, x ≠ .define i g := by
      rintro g rfl
      have hrefused := hbound.1 g rfl
      rw [Action.answer, hi, Option.bind_some, Slot.fill?, ha] at hrefused
      cases hrefused
    have hrest : build.NeverEnters i (x.after s) log := by
      rintro before own rfl hnot
      exact hself (x :: before) own rfl (by simp [henter.symm, hnot])
    rcases ih (Action.getElem?_after_of_ne hi henter hclose hdefine) ha hbound.2 hrest with
      ⟨hnot, hsame⟩ | ⟨before, own, rfl, hnot, hcourse⟩
    · exact .inl ⟨by simp [henter.symm, hnot], hsame⟩
    · exact .inr ⟨x :: before, own, rfl, by simp [henter.symm, hnot], hcourse⟩
  | @built _ s build' depth during log g hs hmade hduring h ihduring ih =>
    obtain ⟨rfl, hopened⟩ := Action.enter_deferred hi ha hs
    have hnot := hself [] _ rfl List.not_mem_nil _ _ _ hmade
    have hcounted : a.countBuild.state = .deferred build' := ha
    rcases ihduring hopened hcounted (Unbound.of_append hbound.2).1 (.of_not_mem hnot) with
      ⟨-, hsame⟩ | ⟨l, l', rfl, -⟩
    · refine .inr ⟨[], _, rfl, List.not_mem_nil, .inr ⟨depth, during, g, log, rfl, hnot, hmade, ?_⟩⟩
      have hfinish : (s.replay (.enter i :: (during ++ [.finish i g]))) =
          (((Action.enter i).after s).replay during).defined i g := by
        rw [Store.replay_cons, Store.replay_append]
        rfl
      rw [List.nil_append, hfinish, Store.getElem?_defined, if_pos rfl, hsame, Option.map_some,
        Slot.fill?, hcounted]
      rfl
    · simp at hnot
  | @building s build' depth during τ hs hmade hduring ih =>
    obtain ⟨rfl, hopened⟩ := Action.enter_deferred hi ha hs
    have hnot := hself [] _ rfl List.not_mem_nil _ _ _ hmade
    have hcounted : a.countBuild.state = .deferred build' := ha
    rcases ih hopened hcounted hbound.2 (.of_not_mem hnot) with ⟨-, hsame⟩ | ⟨l, l', rfl, -⟩
    · exact .inr ⟨[], _, rfl, List.not_mem_nil, .inl ⟨hnot, hsame, depth, τ, hmade⟩⟩
    · simp at hnot

theorem Nested.builtOnce {closed : Bool} {build : Assembly} (h : Nested i closed s log)
    (hi : s.slots[i]? = some a) (ha : a.state = .deferred build) (hbuilds : a.builds = 0)
    (hbound : Unbound i s log) (hself : build.NeverEnters i s log) : BuiltOnce i build s log := by
  rcases h.course hi ha hbound hself with ⟨hnot, hidle⟩ | ⟨before, own, rfl, hnot, hcourse⟩
  · exact ⟨fun _ => by rw [hidle, Option.map_some, hbuilds], (absurd · hnot), (absurd · hnot)⟩
  · have hmem : .enter i ∈ before ++ .enter i :: own := by simp
    rcases hcourse with ⟨hown, hbusy, hmade⟩ |
      ⟨depth, during, g, later, rfl, hduring, hmade, hfilled⟩
    · refine ⟨(absurd hmem ·), fun _ => ?_, fun _ => ⟨before, own, rfl, hnot, .inl ⟨hown, hmade⟩⟩⟩
      rw [hbusy, Option.map_some, Slot.countBuild, hbuilds]
    · have hlater : ∀ seen, (s.replay (before ++ .enter i :: (during ++ .finish i g :: seen))).slots[i]? =
          some { a.countBuild with state := .filled g } := by
        intro seen
        have hsplit : before ++ .enter i :: (during ++ .finish i g :: seen) =
            (before ++ .enter i :: (during ++ [.finish i g])) ++ seen := by simp
        rw [hsplit, Store.replay_append]
        exact Store.getElem?_replay_of_filled hfilled rfl
      refine ⟨(absurd hmem ·), fun _ => ?_, fun _ => ⟨before, _, rfl, hnot,
        .inr ⟨depth, during, g, later, rfl, hduring, hmade, fun seen rest _ => ?_⟩⟩⟩
      · rw [hlater, Option.map_some]
        change some (a.builds + 1) = some 1
        rw [hbuilds]
      · exact Store.stateAt_of_getElem? (hlater seen)

end

/-- A slot is filled once, and later definitions are refused. One that was made with a builder is built
once, by the first that enters it. -/
theorem slots_filled_once_and_built_once {log : List Action} (hlog : Underway log) (i : Nat) :
    (∀ before own g, log = before ++ own →
      (Store.replay {} before).stateAt i = some (.filled g) →
        (Store.replay {} log).stateAt i = some (.filled g)) ∧
    (∀ before own g h, log = before ++ .define i h :: own →
      (Store.replay {} before).stateAt i = some (.filled g) →
        (Action.define i h).answer (Store.replay {} before) = false ∧
          (Action.define i h).after (Store.replay {} before) = Store.replay {} before) ∧
    ∀ before own name keeps build, log = before ++ .defer name keeps build :: own →
      i = (Store.replay {} before).slots.size →
      Unbound i (Store.replay {} (before ++ [.defer name keeps build])) own →
      (build i).NeverEnters i (Store.replay {} (before ++ [.defer name keeps build])) own →
        BuiltOnce i (build i) (Store.replay {} (before ++ [.defer name keeps build])) own := by
  refine ⟨?_, fun before own g h _ hs => Action.define_of_filled h hs, ?_⟩
  · rintro before own g rfl hs
    obtain ⟨a, ha, hst⟩ := Option.map_eq_some_iff.mp hs
    rw [Store.replay_append, Store.stateAt_of_getElem? (Store.getElem?_replay_of_filled ha hst), hst]
  · rintro before own name keeps build rfl rfl hbound hself
    have hslot : (Store.replay {} (before ++ [.defer name keeps build])).slots[
        (Store.replay {} before).slots.size]? =
        some { state := .deferred (build (Store.replay {} before).slots.size), name := some name
               keeps := (Store.replay {} before).slots.size :: keeps } := by
      rw [Store.replay_append]
      exact Array.getElem?_push_size
    have hnested := (hlog.nested _).of_append (Nat.le_refl _)
    rw [Store.replay_append] at hslot hbound hself ⊢
    cases hnested with
    | other _ _ h => exact h.builtOnce hslot rfl rfl hbound hself

/-- An `x` in brackets, each bracket through the reference. -/
def bracketing (slot : Nat) : Grammar :=
  .choice [.sequence [.leaf (.literal "("), .handle slot "bracketing", .leaf (.literal ")")],
    .leaf (.literal "x")]

/-- The reference is made, run on `(x)`, and then defined in vain. -/
theorem slots_filled_once_and_built_once_bracketing :
    Underway [.defer "bracketing" [] fun slot => .done (bracketing slot), .enter 0,
        .finish 0 (bracketing 0), .enter 0, .define 0 (.leaf .anyChar)] ∧
      BuiltOnce 0 (.done (bracketing 0))
        (Store.replay {} [.defer "bracketing" [] fun slot => .done (bracketing slot)])
        [.enter 0, .finish 0 (bracketing 0), .enter 0, .define 0 (.leaf .anyChar)] := by
  have hmade : Happened ([] ++ [.defer "bracketing" [] fun slot => .done (bracketing slot)]) :=
    .invoked .nothing (.assembling 0 (.deferred "bracketing" [] (fun slot => .done (bracketing slot))
      fun slot => .done (.handle slot "bracketing"))) (.act (.none _ _))
  have hrun : Happened ([.defer "bracketing" [] fun slot => .done (bracketing slot)] ++
      [.enter 0, .finish 0 (bracketing 0), .enter 0]) :=
    .invoked hmade (.running 7 (.handle 0 "bracketing") (.start ['(', 'x', ')']))
      (.act (.act (.act (.none _ _))))
  have hlog : Underway [.defer "bracketing" [] fun slot => .done (bracketing slot), .enter 0,
      .finish 0 (bracketing 0), .enter 0, .define 0 (.leaf .anyChar)] :=
    ⟨_, [.define 0 (.leaf .anyChar)], rfl, hrun, Bool, _, _, .defining 0 (.leaf .anyChar),
      .act (.none _ _)⟩
  refine ⟨hlog, (slots_filled_once_and_built_once hlog 0).2.2 [] _ "bracketing" []
    (fun slot => .done (bracketing slot)) rfl rfl ?_ ?_⟩
  · refine ⟨nofun, nofun, nofun, ?_, trivial⟩
    intro g hg
    cases hg
    rfl
  · intro before own _ _ depth during τ h
    obtain ⟨rfl, -⟩ := h.done_eq
    exact List.not_mem_nil

end FurthestFailure
