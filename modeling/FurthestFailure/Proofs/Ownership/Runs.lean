import FurthestFailure.Proofs.Ownership

/-! # Runs that own nothing but what is alive

An assembly that is given nothing but slots that are alive is carried out by actions that bring in nothing
else, and so is a grammar run that owns nothing else: by induction on the depth of the run, where the
continuations get what is held around them, and builders what their slots keep.
-/
namespace FurthestFailure
set_option autoImplicit false

/-- Where the slots `L` are alive, the computation does to a store within `L` what actions within `L` do,
and what comes of it is as `post` says. -/
def Honestly {α : Type} (L : Set Nat) (post : α → Prop) (x : Engine α) : Prop :=
  ∀ s, s.living = L → s.Within L → ∀ a s', x s = some (a, s') →
    post a ∧ ∃ log, (∀ y ∈ log, Action.Within L y) ∧ s' = s.replay log

namespace Honestly
variable {α β : Type} {L : Set Nat} {post : α → Prop} {post' : β → Prop} {x : Engine α}
variable {f : α → Engine β} {s s' : Store} {a : α}

theorem pure (h : post a) : Honestly L post (pure a) := by
  rintro s - - _ _ ⟨⟩
  exact ⟨h, [], nofun, rfl⟩

theorem bind (hx : Honestly L post x) (hf : ∀ a, post a → Honestly L post' (f a)) :
    Honestly L post' (x >>= f) := by
  intro s hL hs b s'' h
  obtain ⟨⟨a, s'⟩, ha, hb⟩ := Option.bind_eq_some_iff.mp h
  obtain ⟨hpost, log, hlog, rfl⟩ := hx s hL hs a s' ha
  obtain ⟨hL', hs'⟩ := Store.replay_within hL hs hlog
  obtain ⟨hpost', own, hown, rfl⟩ := hf a hpost _ hL' hs' b s'' hb
  exact ⟨hpost', log ++ own, List.forall_mem_append.mpr ⟨hlog, hown⟩, Store.replay_append.symm⟩

/-- An action comes first. -/
theorem after (hx : Honestly L post x) {y : Action} (hy : y.Within L) (hL : s.living = L)
    (hs : s.Within L) (h : x (y.after s) = some (a, s')) :
    post a ∧ ∃ log, (∀ y ∈ log, Action.Within L y) ∧ s' = s.replay log := by
  have hlog : ∀ z ∈ [y], z.Within L := List.forall_mem_singleton.mpr hy
  obtain ⟨hL', hs'⟩ := Store.replay_within hL hs hlog
  obtain ⟨hpost, log, hlog, rfl⟩ := hx _ hL' hs' a s' h
  exact ⟨hpost, y :: log, List.forall_mem_cons.mpr ⟨hy, hlog⟩, rfl⟩

/-- Computations done honestly, with no say on what comes of them. -/
def relating (L : Set Nat) : Relating Engine Engine where
  Rel x _ := Honestly L (fun _ => True) x
  pure _ := pure trivial
  bind hx hf := bind hx fun a _ => hf a
  unending := nofun

section
variable {run : Grammar → Parser Engine Value}
variable (hrun : ∀ {g : Grammar}, g.RunsWithin L → ∀ c, Honestly L (fun _ => True) (run g c))
include hrun

theorem perform : ∀ {a : Assembly}, a.Honest L →
    Honestly L (fun r => ∀ g, r = .ok g → g.Within L) (a.perform run)
  | .done g, h => pure fun _ hg => by
    cases hg
    exact ⟨h.1, h.2⟩
  | .refuse e, _ => pure nofun
  | .placeholder next, h => fun s hL hs r s' hr => by
    have hnext : (next s.slots.size).Honest L := by
      have := h s.slots.size
      rwa [Set.insert_eq_of_mem (hL ▸ Store.size_mem_living)] at this
    exact (perform hnext).after (y := .make fun _ => { state := .unfilled })
      (fun _ _ => ⟨.unfilled none, nofun⟩) hL hs hr
  | .define slot g next, ⟨⟨howned, hg⟩, hnext⟩ => fun s hL hs r s' hr => by
    rw [Assembly.perform_define] at hr
    exact (perform hnext).after (y := .define slot g) ⟨howned, hg⟩ hL hs hr
  | .deferred name keeps build next, ⟨hkeeps, hboth⟩ => fun s hL hs r s' hr => by
    rw [Assembly.perform_deferred] at hr
    have hnext : (next s.slots.size).Honest L := by
      have := (hboth s.slots.size).2
      rwa [Set.insert_eq_of_mem (hL ▸ Store.size_mem_living)] at this
    refine (perform hnext).after (y := .defer name keeps build) (fun i hi => ⟨?_, nofun⟩) hL hs hr
    exact {
      owned := List.forall_mem_cons.mpr ⟨hi, hkeeps⟩
      filled := nofun
      deferred := by
        rintro _ ⟨rfl⟩
        exact (hboth i).1
      released := nofun }
  | .attempt g text next, ⟨⟨howned, hg⟩, hnext⟩ => by
    have hruns : g.RunsWithin L := Grammar.Within.runs ⟨howned, hg⟩
    exact bind (hrun hruns (.start text)) fun o _ => perform (hnext o)
  | .publish name g next, ⟨⟨howned, hg⟩, hnext⟩ => fun s hL hs r s' hr =>
    (perform hnext).after (y := .publish name g) ⟨howned, hg⟩ hL hs hr

theorem performed {a : Assembly} (ha : a.Honest L) :
    Honestly L (fun g => g.Within L) (a.performed run) := by
  refine bind (perform hrun ha) fun r hr => ?_
  cases r with
  | ok g => exact pure (hr g rfl)
  | error e => exact nofun

theorem enter (slot : Nat) :
    Honestly L (fun found => ∀ g, found = some g → g.Within L) (Store.enter run slot) := by
  intro s hL hs found s' h
  suffices hlog : ∃ log, (∀ y ∈ log, Action.Within L y) ∧ s' = s.replay log by
    refine ⟨?_, hlog⟩
    rintro g rfl
    obtain ⟨log, hlog, rfl⟩ := hlog
    obtain ⟨-, hs'⟩ := Store.replay_within hL hs hlog
    have hg := (Store.eq_filled?_of_enter h).symm
    obtain ⟨a, hst, ha⟩ := hs'.state (Store.filled?_eq_some_iff.mp hg)
    exact ha.of_filled hst
  by_cases hdeferred : ∃ build, s.stateAt slot = some (.deferred build)
  · obtain ⟨build, hst⟩ := hdeferred
    obtain ⟨g, built, hbuilt⟩ := Store.exists_performed_of_enter hst h
    rw [Store.enter_of_performed hst hbuilt] at h
    cases h
    obtain ⟨a, ha, hbuild⟩ := hs.state hst
    have hcounted : (Action.enter slot).after s = s.counted slot := by
      simp only [Action.after, hst]
    obtain ⟨hg, log, hlog, rfl⟩ := (performed hrun (hbuild.of_deferred ha)).after
      (y := .enter slot) trivial hL hs (by rw [hcounted, hbuilt])
    refine ⟨log ++ [.finish slot g], ?_, ?_⟩
    · exact List.forall_mem_append.mpr ⟨hlog, List.forall_mem_singleton.mpr hg⟩
    · rw [Store.replay_append]
      rfl
  · rw [Store.enter_of_not_deferred fun build hb => hdeferred ⟨build, hb⟩] at h
    cases h
    exact ⟨[], List.forall_mem_nil _, rfl⟩

end

theorem runWithin (depth : Nat) {g : Grammar} (hg : g.RunsWithin L) (c : Cursor) :
    Honestly L (fun _ => True) (g.runWithin depth c) := by
  induction depth generalizing g c with
  | zero => exact nofun
  | succ depth ih =>
    have hrun : ∀ {g : Grammar}, g.RunsWithin L →
        (relating L).Parsers (g.runWithin depth) (g.runWithin depth) := fun hg c => ih hg c
    suffices h : (relating L).Parsers (g.runWithin (depth + 1)) (g.runWithin (depth + 1)) from h c
    cases g with
    | chain k next =>
      let continued (v : Value) : Parser Engine Value := fun c => do
        Grammar.runWithin depth (← (next v).performed (Grammar.runWithin depth)) c
      have hcontinued : ∀ v, (relating L).Parsers (continued v) (continued v) :=
        fun v c => bind (performed ih (hg.honest.2 v)) fun g hg => ih hg.runs c
      exact (hrun (hg.part (.head _))).chain hcontinued
    | handle slot label =>
      intro c
      refine bind (enter ih slot) fun found hfound => ?_
      cases found with
      | some k => exact ih (hfound k rfl).runs c
      | none => exact pure trivial
    | _ => exact Relating.parser_of_parts (fun p hp => hrun (hg.part hp)) (by simp) (by simp)

theorem run {g : Grammar} (hg : g.RunsWithin L) (c : Cursor) :
    Honestly L (fun _ => True) (g.run c) :=
  runWithin Grammar.depthLimit hg c

end Honestly
end FurthestFailure
