import FurthestFailure.Proofs.Stepping

/-! # Logs of actions

The actions that a run has taken so far tell all that has become of the store. In the log of a run the
builds of a slot are nested like brackets: what follows the entering of a slot that is put off is what
its builder does, and then the filling of the slot by what the builder made.
-/
namespace FurthestFailure
set_option autoImplicit false

namespace Store

/-- The store after all actions of a log. -/
def replay (s : Store) (log : List Action) : Store := log.foldl (fun s x => x.after s) s

variable {s : Store} {log log' : List Action}

@[simp] theorem replay_nil : s.replay [] = s := rfl

@[simp] theorem replay_cons (x : Action) : s.replay (x :: log) = (x.after s).replay log := rfl

@[simp] theorem replay_append : s.replay (log ++ log') = (s.replay log).replay log' :=
  List.foldl_append

end Store

namespace Action
variable {x : Action} {s : Store}

theorem size_le_after : s.slots.size ≤ (x.after s).slots.size := by
  cases x with
  | enter slot =>
    rw [after]
    split
    · simp [Store.counted]
    · exact Nat.le_refl _
    · exact Nat.le_refl _
    · exact Nat.le_refl _
    · exact Nat.le_refl _
  | make slot => simp [after]
  | define slot g | finish slot g => exact Nat.le_of_eq (Store.size_defined g).symm
  | publish name g => exact Nat.le_refl _

end Action

theorem Store.size_le_replay {s : Store} {log : List Action} :
    s.slots.size ≤ (s.replay log).slots.size := by
  induction log generalizing s with
  | nil => exact Nat.le_refl _
  | cons x log ih => exact Nat.le_trans Action.size_le_after ih

namespace Steps
variable {α β : Type}

/-- The run takes the actions of the log, and the rest of it remains. -/
inductive Takes : Steps α → Store → List Action → Steps α → Prop
  | none (τ : Steps α) (s : Store) : Takes τ s [] τ
  | act {x : Action} {next : x.Answer → Steps α} {s : Store} {log : List Action} {τ : Steps α}
    (h : Takes (next (x.answer s)) (x.after s) log τ) : Takes (.act x next) s (x :: log) τ

theorem Takes.done_eq {a : α} {s : Store} {log : List Action} {τ : Steps α}
    (h : Takes (.done a) s log τ) : log = [] ∧ τ = .done a := by
  cases h
  exact ⟨rfl, rfl⟩

/-- A run that ends has taken a log of actions, and all that it did to the store is in it. -/
theorem exists_takes {τ : Steps α} {s : Store} {r : α × Store} (h : τ.alone s = some r) :
    ∃ log, τ.Takes s log (.done r.1) ∧ r.2 = s.replay log := by
  induction τ generalizing s with
  | done a =>
    cases h
    exact ⟨[], .none _ s, rfl⟩
  | stuck => cases h
  | act x next ih =>
    obtain ⟨log, htakes, hstore⟩ := ih (x.answer s) h
    exact ⟨x :: log, .act htakes, hstore⟩

/-- A sequel begins where all of what comes before it is done. -/
theorem takes_bind {f : α → Steps β} {σ : Steps β} : ∀ {τ : Steps α} {s : Store} {log : List Action},
    (τ >>= f).Takes s log σ →
      (∃ τ', τ.Takes s log τ' ∧ ∀ b, σ ≠ .done b) ∨
        ∃ a before own, log = before ++ own ∧ τ.Takes s before (.done a) ∧
          (f a).Takes (s.replay before) own σ
  | .done a, s, log, h => .inr ⟨a, [], log, rfl, .none _ s, h⟩
  | .stuck, s, _, .none _ _ => .inl ⟨_, .none _ s, nofun⟩
  | .act x next, s, _, .none _ _ => .inl ⟨_, .none _ s, nofun⟩
  | .act x next, s, _, .act h => by
    rcases takes_bind h with ⟨τ', hτ', hσ⟩ | ⟨a, before, own, rfl, hbefore, hown⟩
    · exact .inl ⟨τ', .act hτ', hσ⟩
    · exact .inr ⟨a, x :: before, own, rfl, .act hbefore, hown⟩

end Steps

/-- What a grammar does to the store when it runs in one go, it does by a log of actions. -/
theorem Grammar.exists_takes_of_runWithin {depth : Nat} {g : Grammar} {c : Cursor} {s : Store}
    {r : Outcome Value × Store} (h : g.runWithin depth c s = some r) :
    ∃ n log, (g.stepsWithin n c).Takes s log (.done r.1) ∧ r.2 = s.replay log := by
  obtain ⟨n, halone⟩ := alone_stepsWithin_iff.mpr ⟨depth, h⟩
  obtain ⟨log, htakes, hstore⟩ := Steps.exists_takes halone
  exact ⟨n, log, htakes, hstore⟩

/-- The log of a run from the store on: builds of the slot `i` are nested in it, and all of them are
finished if `closed`. -/
inductive Nested (i : Nat) : Bool → Store → List Action → Prop
  | nil (closed : Bool) (s : Store) : Nested i closed s []
  | other {closed : Bool} {s : Store} {x : Action} {log : List Action}
    (hopen : x = .enter i → ∀ build, s.stateAt i ≠ some (.deferred build))
    (hclose : ∀ g, x ≠ .finish i g) (h : Nested i closed (x.after s) log) :
    Nested i closed s (x :: log)
  | built {closed : Bool} {s : Store} {build : Assembly} {depth : Nat} {during log : List Action}
    {g : Grammar} (hs : s.stateAt i = some (.deferred build))
    (hmade : (build.stepped (Grammar.stepsWithin depth)).Takes ((Action.enter i).after s) during
      (.done g))
    (hduring : Nested i true ((Action.enter i).after s) during)
    (h : Nested i closed (s.replay (.enter i :: during ++ [.finish i g])) log) :
    Nested i closed s (.enter i :: (during ++ .finish i g :: log))
  | building {s : Store} {build : Assembly} {depth : Nat} {during : List Action} {τ : Steps Grammar}
    (hs : s.stateAt i = some (.deferred build))
    (hmade : (build.stepped (Grammar.stepsWithin depth)).Takes ((Action.enter i).after s) during τ)
    (hduring : Nested i false ((Action.enter i).after s) during) :
    Nested i false s (.enter i :: during)

namespace Nested
variable {i : Nat} {closed : Bool} {s : Store} {log own : List Action}

theorem append {b : Bool} (h : Nested i b s log) (hb : b = true)
    (hown : Nested i closed (s.replay log) own) : Nested i closed s (log ++ own) := by
  induction h with
  | nil => exact hown
  | other hopen hclose _ ih => exact .other hopen hclose (ih hb hown)
  | @built _ s build depth during log g hs hmade hduring _ _ ih =>
    have h := Nested.built hs hmade hduring (ih hb (by simpa using hown))
    simpa using h
  | building => cases hb

/-- Before the slot is there, nothing of its builds can be in the log. -/
theorem of_append (h : Nested i closed s (log ++ own)) (hi : (s.replay log).slots.size ≤ i) :
    Nested i closed (s.replay log) own := by
  induction log generalizing s with
  | nil => exact h
  | cons x log ih =>
    have hnot : ∀ build, s.stateAt i ≠ some (.deferred build) := by
      intro build hs
      have hlt := Store.lt_size_of_stateAt hs
      have hle : s.slots.size ≤ (s.replay (x :: log)).slots.size := Store.size_le_replay
      omega
    generalize hall : x :: log ++ own = all at h
    cases h with
    | nil => cases hall
    | other _ _ h =>
      obtain ⟨rfl, rfl⟩ := List.cons.inj hall
      exact ih h hi
    | built hs => exact absurd hs (hnot _)
    | building hs => exact absurd hs (hnot _)

end Nested

/-- In whatever store the run begins, builds of the slot are nested in its log. -/
def Steps.Nests {α : Type} (i : Nat) (τ : Steps α) : Prop :=
  ∀ s log τ', τ.Takes s log τ' →
    Nested i false s log ∧ ∀ a, τ' = .done a → Nested i true s log

namespace Steps.Nests
variable {α β : Type} {i : Nat}

theorem done (a : α) : (Steps.done a).Nests i := by
  intro s log τ' h
  obtain ⟨rfl, -⟩ := h.done_eq
  exact ⟨.nil _ _, fun _ _ => .nil _ _⟩

theorem stuck : (Steps.stuck : Steps α).Nests i := by
  intro s log τ' h
  cases h
  exact ⟨.nil _ _, fun _ _ => .nil _ _⟩

theorem bind {τ : Steps α} {f : α → Steps β} (hτ : τ.Nests i) (hf : ∀ a, (f a).Nests i) :
    (τ >>= f).Nests i := by
  intro s log σ h
  rcases takes_bind h with ⟨τ', hτ', hσ⟩ | ⟨a, before, own, rfl, hbefore, hown⟩
  · exact ⟨(hτ _ _ _ hτ').1, fun b hb => absurd hb (hσ b)⟩
  · have hclosed := (hτ _ _ _ hbefore).2 a rfl
    obtain ⟨hopen, hdone⟩ := hf a _ _ _ hown
    exact ⟨hclosed.append rfl hopen, fun b hb => hclosed.append rfl (hdone b hb)⟩

theorem act {x : Action} {next : x.Answer → Steps α} (hopen : x ≠ .enter i)
    (hclose : ∀ g, x ≠ .finish i g) (hnext : ∀ r, (next r).Nests i) : (Steps.act x next).Nests i := by
  intro s log τ' h
  cases h with
  | none => exact ⟨.nil _ _, fun _ _ => .nil _ _⟩
  | act h =>
    obtain ⟨hopened, hdone⟩ := hnext _ _ _ _ h
    exact ⟨.other (absurd · hopen) hclose hopened,
      fun a ha => .other (absurd · hopen) hclose (hdone a ha)⟩

/-- Runs in whose logs the builds of the slot are nested. -/
def relating (i : Nat) : Relating Steps Option where
  Rel x _ := x.Nests i
  pure := done
  bind := bind
  unending := stuck

section
variable {run : Grammar → Parser Steps Value} (hrun : ∀ g c, (run g c).Nests i)
include hrun

theorem steps (a : Assembly) : (a.steps run).Nests i := by
  cases a with
  | done g => exact done _
  | refuse e => exact done _
  | placeholder next => exact act nofun nofun fun slot => steps (next slot)
  | define slot g next => exact act nofun nofun fun _ => steps next
  | deferred name keeps build next => exact act nofun nofun fun slot => steps (next slot)
  | attempt g text next => exact bind (hrun g (.start text)) fun o => steps (next o)
  | publish name g next => exact act nofun nofun fun _ => steps next

theorem stepped (a : Assembly) : (a.stepped run).Nests i := by
  refine bind (steps hrun a) fun r => ?_
  cases r with
  | ok g => exact done g
  | error e => exact stuck

theorem enter_other {slot : Nat} (hslot : slot ≠ i) : (Steps.enter run slot).Nests i := by
  refine act (by simpa using hslot) nofun fun r => ?_
  rcases r with _ | _ | build | g | _
  · exact done _
  · exact done _
  · refine bind (stepped hrun build) fun g => act nofun (by simp [hslot]) fun r => done r
  · exact done _
  · exact done _

end

theorem other_done {s : Store} {log : List Action} {a : α} {τ : Steps α}
    (hs : ∀ build, s.stateAt i ≠ some (.deferred build))
    (h : (Steps.done a).Takes ((Action.enter i).after s) log τ) :
    Nested i false s (.enter i :: log) ∧ ∀ b, τ = .done b → Nested i true s (.enter i :: log) := by
  obtain ⟨rfl, -⟩ := h.done_eq
  exact ⟨.other (fun _ => hs) nofun (.nil _ _), fun _ _ => .other (fun _ => hs) nofun (.nil _ _)⟩

theorem enter_self {depth : Nat} (hrun : ∀ g c, (Grammar.stepsWithin depth g c).Nests i) :
    (Steps.enter (Grammar.stepsWithin depth) i).Nests i := by
  intro s log σ h
  cases h with
  | none => exact ⟨.nil _ _, fun b hb => by cases hb⟩
  | @act _ _ _ log _ h =>
    rcases hs : s.stateAt i with _ | _ | build | g | _
    · simp only [Action.answer, hs] at h
      exact other_done (by simp [hs]) h
    · simp only [Action.answer, hs] at h
      exact other_done (by simp [hs]) h
    · simp only [Action.answer, hs] at h
      rcases takes_bind h with ⟨τ', hτ', hσ⟩ | ⟨g, during, own, rfl, hduring, hown⟩
      · exact ⟨.building hs hτ' (stepped hrun build _ _ _ hτ').1, fun b hb => absurd hb (hσ b)⟩
      · obtain ⟨hopened, hdone⟩ := stepped hrun build _ _ _ hduring
        cases hown with
        | none =>
          rw [List.append_nil]
          exact ⟨.building hs hduring hopened, fun b hb => by cases hb⟩
        | act hown =>
          obtain ⟨rfl, rfl⟩ := hown.done_eq
          have hclosed := hdone g rfl
          exact ⟨.built hs hduring hclosed (.nil _ _), fun _ _ => .built hs hduring hclosed (.nil _ _)⟩
    · simp only [Action.answer, hs] at h
      exact other_done (by simp [hs]) h
    · simp only [Action.answer, hs] at h
      exact other_done (by simp [hs]) h

theorem enter {depth : Nat} (hrun : ∀ g c, (Grammar.stepsWithin depth g c).Nests i) (slot : Nat) :
    (Steps.enter (Grammar.stepsWithin depth) slot).Nests i := by
  by_cases hslot : slot = i
  · subst hslot
    exact enter_self hrun
  · exact enter_other hrun hslot

theorem stepsWithin (depth : Nat) (g : Grammar) (c : Cursor) : (g.stepsWithin depth c).Nests i := by
  induction depth generalizing g c with
  | zero => exact stuck
  | succ depth ih =>
    have hrelated : (relating i).Parsers (g.stepsWithin (depth + 1))
        (g.bare.parser (fun _ _ => none) (fun _ => none) fun _ => none) :=
      (relating i).parser ih (enter ih) (stepped ih) g.bare
    exact hrelated c

end Steps.Nests
end FurthestFailure
