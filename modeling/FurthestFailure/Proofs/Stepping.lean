import FurthestFailure.Proofs.Anew.Adequacy
import FurthestFailure.Proofs.Relating

/-! # Runs step by step

A run works on the store by single actions: it looks up what a slot holds, makes a slot, fills one.
Here a run is the tree of its actions, each with what is done on every answer, so that it may stop
between any two of them and others may act there. Taken without a stop, it ends as the grammar runs.

An action that enters a slot counts the build that begins there, if one does; the action that finishes
a build fills the slot, unless it is filled already, and answers what the slot holds then.
-/
namespace FurthestFailure
set_option autoImplicit false

inductive Action where
  | enter (slot : Nat)
  | make (slot : Nat → Slot)
  | define (slot : Nat) (g : Grammar)
  | finish (slot : Nat) (g : Grammar)
  | publish (name : String) (g : Grammar)

namespace Action

/-- Makes a slot with a builder. -/
abbrev defer (name : String) (keeps : List Nat) (build : Nat → Assembly) : Action :=
  make fun slot => { state := .deferred (build slot), name := some name, keeps := slot :: keeps }

abbrev Answer : Action → Type
  | enter _ => Option SlotState
  | make _ => Nat
  | define _ _ => Bool
  | finish _ _ => Option Grammar
  | publish _ _ => Unit

def answer : (x : Action) → Store → x.Answer
  | enter slot, store => store.stateAt slot
  | make _, store => store.slots.size
  | define slot g, store => ((store.slots[slot]?).bind (·.fill? g)).isSome
  | finish slot g, store => (store.defined slot g).filled? slot
  | publish _ _, _ => ()

/-- The store after the action. -/
def after : Action → Store → Store
  | enter slot, store =>
    match store.stateAt slot with
    | some (.deferred _) => store.counted slot
    | some .unfilled | some (.filled _) | some .released | none => store
  | make slot, store => { store with slots := store.slots.push (slot store.slots.size) }
  | define slot g, store | finish slot g, store => store.defined slot g
  | publish name g, store => { store with published := (name, g) :: store.published }

theorem stateAt_after_enter {store : Store} (slot i : Nat) :
    ((enter slot).after store).stateAt i = store.stateAt i := by
  rw [after]
  split
  · exact Store.stateAt_counted i
  all_goals rfl

theorem size_after_enter {store : Store} (slot : Nat) :
    ((enter slot).after store).slots.size = store.slots.size := by
  rw [after]
  split
  · exact Array.size_modify
  all_goals rfl

end Action

inductive Steps (α : Type) where
  | done (a : α)
  | stuck
  | act (x : Action) (next : x.Answer → Steps α)

namespace Steps
variable {α β : Type}

def bind : Steps α → (α → Steps β) → Steps β
  | done a, f => f a
  | stuck, _ => stuck
  | act x next, f => act x fun r => (next r).bind f

instance : Monad Steps where
  pure := done
  bind := bind

instance : Unending Steps := ⟨stuck⟩

/-- Acts once on the store, if there is anything left to do. -/
def step : Steps α → Store → Steps α × Store
  | act x next, store => (next (x.answer store), x.after store)
  | done a, store => (done a, store)
  | stuck, store => (stuck, store)

/-- Acts until the end, while nobody else does. -/
def alone : Steps α → Engine α
  | done a => pure a
  | stuck => unending
  | act x next => fun store => (next (x.answer store)).alone (x.after store)

end Steps

namespace Assembly

def steps (run : Grammar → Parser Steps Value) : Assembly → Steps (Except GrammarError Grammar)
  | done g => .done (.ok g)
  | refuse e => .done (.error e)
  | placeholder next => .act (.make fun _ => { state := .unfilled }) fun slot => (next slot).steps run
  | define slot g next => .act (.define slot g) fun _ => next.steps run
  | deferred name keeps build next =>
    .act (.defer name keeps build) fun slot => (next slot).steps run
  | attempt g text next => do (next (← run g (.start text))).steps run
  | publish name g next => .act (.publish name g) fun _ => next.steps run

/-- As `steps`, where a refusal leaves nothing to go on with. -/
def stepped (run : Grammar → Parser Steps Value) (a : Assembly) : Steps Grammar := do
  match ← a.steps run with
  | .ok g => return g
  | .error _ => unending

end Assembly

def Steps.enter (run : Grammar → Parser Steps Value) (slot : Nat) : Steps (Option Grammar) :=
  .act (.enter slot) fun
    | some (.filled g) => .done (some g)
    | some (.deferred build) => do
      let g ← build.stepped run
      .act (.finish slot g) .done
    | some .unfilled | some .released | none => .done none

/-- The steps of a run to at most the given depth; what is held around a grammar takes none. -/
def Grammar.stepsWithin : Nat → Grammar → Parser Steps Value
  | 0, _ => fun _ => unending
  | depth + 1, g =>
    g.bare.parser (stepsWithin depth) (Steps.enter (stepsWithin depth))
      (Assembly.stepped (stepsWithin depth))

namespace Steps
variable {α β : Type}

theorem alone_bind (f : α → Steps β) :
    ∀ τ : Steps α, (τ >>= f).alone = τ.alone >>= fun a => (f a).alone
  | done _ => rfl
  | stuck => rfl
  | act x next => funext fun store => congrFun (alone_bind f (next (x.answer store))) (x.after store)

/-- Steps, beside what comes of them. -/
def besideAlone : Relating Steps Engine where
  Rel x y := x.alone = y
  pure _ := rfl
  bind {_ _ x _ f _} hx hf := by rw [alone_bind f x, hx, funext hf]
  unending := rfl

end Steps

/-- The parser without its stops. -/
def Parser.alone {α : Type} (p : Parser Steps α) : Parser Engine α := fun c => (p c).alone

section
variable (run : Grammar → Parser Steps Value)

theorem Assembly.alone_steps (a : Assembly) :
    (a.steps run).alone = a.perform fun g => (run g).alone := by
  cases a with
  | done g => rfl
  | refuse e => rfl
  | placeholder next => exact funext fun store => congrFun (alone_steps (next store.slots.size)) _
  | define slot g next =>
    funext store
    rw [perform_define]
    exact congrFun (alone_steps next) _
  | deferred name keeps build next =>
    funext store
    rw [perform_deferred]
    exact congrFun (alone_steps (next store.slots.size)) _
  | attempt g text next =>
    rw [steps, Steps.alone_bind, perform]
    exact congrArg (_ >>= ·) (funext fun o => alone_steps (next o))
  | publish name g next => exact funext fun store => congrFun (alone_steps next) _

theorem Assembly.alone_stepped (a : Assembly) :
    (a.stepped run).alone = a.performed fun g => (run g).alone := by
  rw [stepped, Steps.alone_bind, performed, alone_steps]
  congr 1
  funext r
  cases r with
  | ok g => rfl
  | error e => rfl

theorem Steps.alone_enter (slot : Nat) :
    (Steps.enter run slot).alone = Store.enter (fun g => (run g).alone) slot := by
  funext store
  rw [Steps.enter, alone]
  by_cases hdeferred : ∃ build, store.stateAt slot = some (.deferred build)
  · obtain ⟨build, hst⟩ := hdeferred
    rw [Store.enter_of_deferred hst]
    simp only [Action.answer, Action.after, hst, Steps.alone_bind, Assembly.alone_stepped]
    refine congrArg (fun k => (build.performed _ >>= k) _) (funext fun g => funext fun s => ?_)
    change some ((s.defined slot g).filled? slot, s.defined slot g) =
      (Store.define slot g s).bind fun r => Store.filling? slot r.2
    rw [Store.define_eq]
    exact Store.filling?_eq.symm
  · rw [Store.enter_of_not_deferred fun build hb => hdeferred ⟨build, hb⟩]
    simp only [Action.answer, Action.after, Store.filled?]
    rcases hst : store.stateAt slot with _ | _ | build | _ | _
    · rfl
    · rfl
    · exact absurd ⟨build, hst⟩ hdeferred
    · rfl
    · rfl

end

namespace Grammar

theorem alone_stepsWithin (n : Nat) (g : Grammar) : (g.stepsWithin (n + 1)).alone =
    g.bare.parser (fun g => (g.stepsWithin n).alone)
      (Store.enter fun g => (g.stepsWithin n).alone)
      (Assembly.performed fun g => (g.stepsWithin n).alone) := by
  have hrun : ∀ g : Grammar, Steps.besideAlone.Parsers (g.stepsWithin n) (g.stepsWithin n).alone :=
    fun _ _ => rfl
  exact funext (Steps.besideAlone.parser hrun (Steps.alone_enter _) (Assembly.alone_stepped _) g.bare)

section
open Correspondence

/-- The same run on the same store. -/
abbrev twice : Correspondence Store Store := same (Store.Everywhere fun _ => True)

theorem parser_twice {run₁ run₂ : Grammar → Parser Engine Value}
    (hrun : ∀ g, twice.Agree Eq (run₁ g) (run₂ g)) (g : Grammar) :
    twice.Agree Eq (g.parser run₁ (Store.enter run₁) (Assembly.performed run₁))
      (g.parser run₂ (Store.enter run₂) (Assembly.performed run₂)) :=
  same_of_enter Store.lasting_everywhere (fun g _ => hrun g)
    (fun slot _ _ h => enter_follows Store.lasting_everywhere (fun g _ => hrun g) slot h)
    g.everywhere_true

theorem alone_of_runWithin {n m : Nat} (hnm : n ≤ m) (g : Grammar) :
    twice.Agree Eq (g.runWithin n) (g.stepsWithin m).alone := by
  induction n generalizing m g with
  | zero => exact fun _ _ _ _ _ _ => Follows.none
  | succ n ih =>
    obtain ⟨m, rfl⟩ : ∃ k, m = k + 1 := ⟨m - 1, by omega⟩
    by_cases hholding : ∃ slots k, g = .holding slots k
    · obtain ⟨slots, k, rfl⟩ := hholding
      exact ih (m := m + 1) (by omega) k
    · have hbare : g.bare = g := by
        cases g with
        | holding slots k => exact absurd ⟨slots, k, rfl⟩ hholding
        | _ => rfl
      rw [alone_stepsWithin, hbare]
      exact parser_twice (fun g => ih (by omega) g) g

theorem unbounded_of_alone (n : Nat) (g : Grammar) :
    twice.Agree Eq (g.stepsWithin n).alone g.unbounded := by
  induction n generalizing g with
  | zero => exact fun _ _ _ _ _ _ => Follows.none
  | succ n ih =>
    rw [alone_stepsWithin]
    intro c d hcd s t hst r hr
    obtain ⟨r', hr', hleft⟩ := parser_twice ih g.bare hcd hst hr
    exact ⟨r', unbounded_of_bare (unbounded_of_parts hr'), hleft⟩

end

/-- Step by step but without a stop, a grammar runs as it does in one go. -/
theorem alone_stepsWithin_iff {g : Grammar} {c : Cursor} {s : Store} {r : Outcome Value × Store} :
    (∃ n, (g.stepsWithin n c).alone s = some r) ↔ ∃ depth, g.runWithin depth c s = some r := by
  constructor
  · rintro ⟨n, hr⟩
    obtain ⟨r', hr', hleft⟩ := unbounded_of_alone n g rfl ⟨rfl, s.everywhere_true⟩ hr
    obtain ⟨rfl, -⟩ := Correspondence.same_left_iff.mp hleft
    exact unbounded_eq_some_iff.mp hr'
  · rintro ⟨depth, hr⟩
    obtain ⟨r', hr', hleft⟩ :=
      alone_of_runWithin (Nat.le_refl depth) g rfl ⟨rfl, s.everywhere_true⟩ hr
    obtain ⟨rfl, -⟩ := Correspondence.same_left_iff.mp hleft
    exact ⟨depth, hr'⟩

end Grammar
end FurthestFailure
