import FurthestFailure.Proofs.Interleaving.Safe

/-! # The end of a run among others

Step by step among others, a grammar comes to the end that its meaning has in the store in which the run
began: to no other, whatever the others do, and to that one unless the meaning, too, has no end within
the depth. By induction on the depth: what others fill keeps the meaning, and so does what the run fills
itself.
-/
namespace FurthestFailure
set_option autoImplicit false

open Set

namespace Store
variable {s t t' : Store} {U W B : Set Nat} {slot : Nat}

theorem Amid.now (h : s.Amid U W B t) : t.Amid (W ∪ B) W B t where
  parted := h.parted
  view := .grow h.view.settled Subset.rfl

/-- The run shares all that it has made. -/
theorem Amid.share (h : s.Amid U W B t) (hsize : t.slots.size ≤ t'.slots.size)
    (hst : ∀ i, t'.stateAt i = t.stateAt i) :
    t.Acts W B (W ∪ B) ∅ t' ∧ s.Amid U (W ∪ B) ∅ t' := by
  have hacts : t.Acts W B (W ∪ B) ∅ t' :=
    Parted.acts_share h.view.settled hsize fun i _ => hst i
  refine ⟨hacts, h.parted.acts hacts, ?_⟩
  rw [union_empty]
  exact h.view.trans (.of_same h.view.settled fun i _ => hst i)

end Store

namespace Steps
variable {α β : Type} {s t t' : Store} {U V W B : Set Nat} {τ : Steps α}

/-- Begun in `s` with the view `U` and come as far as `t`, the run is safe, and ends as `x`. -/
def EndsAs (s : Store) (U : Set Nat) (x : StateT Unit Option α) (τ : Steps α) (W B : Set Nat)
    (t : Store) : Prop :=
  τ.Safe (fun a W B t => s.Amid U W B t ∧ x () = some (a, ())) (x () = none) W B t

/-- The beginning of the run may be put back. -/
theorem EndsAs.before {x y : StateT Unit Option α} (h : τ.EndsAs t V x W B t')
    (hUV : s.KeepsView U t V) (hxy : y () = x ()) : τ.EndsAs s U y W B t' :=
  Safe.mono h (fun _ _ _ _ h => ⟨.trans hUV h.1, hxy.trans h.2⟩) hxy.trans

/-- Runs that begin in the store with the view, beside what they mean there. -/
def besideMeaning (s : Store) (U : Set Nat) : Relating Steps (StateT Unit Option) where
  Rel τ x := ∀ W B t, s.Amid U W B t → τ.EndsAs s U x W B t
  pure _ _ _ _ h := ⟨h, rfl⟩
  bind {_ _ x y f g} hx hf W B t h := by
    have hbind : ∀ r, y () = r → (y >>= g) () = r.bind fun r => g r.1 r.2 := by
      rintro r rfl
      rfl
    refine Safe.bind (hx W B t h) (fun a W B t ha => ?_) fun hnone => hbind _ hnone
    exact Safe.mono (hf a W B t ha.1) (fun _ _ _ _ hb => ⟨hb.1, (hbind _ ha.2).trans hb.2⟩)
      (hbind _ ha.2).trans
  unending _ _ _ _ := rfl

end Steps

namespace Assembly
open Steps

variable {role : Role} {s s' t : Store} {U U' W B made : Set Nat} {a rest : Assembly} {g : Grammar}
variable {slot n : Nat}

namespace Amid

theorem refuse {e : GrammarError} (h : Amid role s U a W B made (.refuse e) t)
    (ha : a.Renamed role (.on U) .empty a) (n : Nat) :
    a.entered (Grammar.anewWithin n) s = fun _ => unending := by
  rw [← h.view.entered ha.continuation, h.halfway.refuse]

/-- The run refers to all that the assembly has made as well. -/
theorem keepsView (h : Amid role s U a W B made rest t) : s.KeepsView U t (W ∪ (B ∪ made)) := by
  refine h.view.trans (.grow ?_ (union_subset_union_right W subset_union_left))
  rw [← union_assoc]
  exact h.halfway.settled h.view.settled h.view.subset

theorem now (h : Amid role s U a W B made rest t) : t.Amid (W ∪ (B ∪ made)) W (B ∪ made) t where
  parted := h.parted
  view := .grow h.keepsView.settled Subset.rfl

theorem on_le (h : Amid role s U a W B made rest t) :
    ∀ i j, Link.on (U ∪ made) i j → Link.on (W ∪ (B ∪ made)) i j := by
  rw [← union_assoc]
  exact Link.on_mono (union_subset_union_left made h.view.subset)

/-- Where the assembly is about to try a grammar. -/
theorem attempt {text : List Char} {next : Outcome Value → Assembly}
    (h : Amid role s U a W B made (.attempt g text next) t) (ha : a.Renamed role (.on U) .empty a) :
    role = .continuation ∧ g.Renamed (.on (W ∪ (B ∪ made))) g ∧
      (∀ o, (next o).Renamed .continuation (.on (W ∪ (B ∪ made))) .empty (next o)) ∧
      ∀ n, a.entered (Grammar.anewWithin n) s =
        (Assembly.attempt g text next).entered (Grammar.anewWithin n) t := by
  obtain ⟨hrole, hg, hnext, hmeans⟩ := h.halfway.attempt h.view.settled h.view.subset
  refine ⟨hrole, hg.mono h.on_le, fun o => (hnext o).mono h.on_le fun _ _ h => h, fun n => ?_⟩
  rw [← h.view.entered ha.continuation, hmeans]

end Amid

/-- The assembly has come to its end `r`. If it tried a grammar on its way, what was left then is an
assembly in its own right, which began in the store of that moment with all that the run knew. -/
inductive Ended (n : Nat) (r : Except GrammarError Grammar) (W B' : Set Nat) (t : Store) :
    Role → Store → Set Nat → Assembly → Set Nat → Prop
  | here {role : Role} {s : Store} {U : Set Nat} {a : Assembly} {B made : Set Nat}
    (hB : B' = B ∪ made) (h : Amid role s U a W B made (ended r) t)
    (ha : a.Renamed role (.on U) .empty a) : Ended n r W B' t role s U a B
  | later {s s' : Store} {U U' : Set Nat} {a b : Assembly} {B C : Set Nat}
    (hview : s.KeepsView U s' U')
    (hmeans : a.entered (Grammar.anewWithin n) s = b.entered (Grammar.anewWithin n) s')
    (h : Ended n r W B' t .continuation s' U' b C) : Ended n r W B' t .continuation s U a B

section
variable {run : Grammar → Parser Steps Value}
variable (hrun : ∀ {s : Store} {U : Set Nat} {g : Grammar}, g.Renamed (.on U) g →
  (besideMeaning s U).Parsers (run g) (g.anewWithin n s))
include hrun

/-- Step by step, the assembly is carried out to its end. -/
theorem Amid.steps {role : Role} {s : Store} {U : Set Nat} {a rest : Assembly} {W B made : Set Nat}
    {t : Store} (h : Amid role s U a W B made rest t) (ha : a.Renamed role (.on U) .empty a) :
    (rest.steps run).Safe (fun r W' B' t' => Ended n r W' B' t' role s U a B)
      (a.entered (Grammar.anewWithin n) s = fun _ => unending) W (B ∪ made) t := by
  match rest, h with
  | .done g, h => exact .here rfl h ha
  | .refuse e, h => exact .here rfl h ha
  | .placeholder next, h =>
    intro W' t' hm
    obtain ⟨hacts, hnext⟩ := (h.moves hm).make _ (h.moves hm).halfway.placeholder
    exact ⟨_, _, hacts, hnext.steps ha⟩
  | .define slot g next, h =>
    intro W' t' hm
    have h' := h.moves hm
    obtain ⟨hslot, hhalfway⟩ := h'.halfway.define
    have hsize : (t'.defined slot g).slots.size = t'.slots.size := Store.size_defined g
    obtain ⟨hacts, hnext⟩ := h'.act hhalfway hsize.ge
      (fun i hi => ⟨.inl hi, hsize ▸ h'.parted.below i (.inr hi)⟩) fun i _ hi => by
        have hne : i ≠ slot := fun heq => hi (heq ▸ hslot)
        rw [Store.stateAt_defined, if_neg hne]
    exact ⟨_, _, hacts, hnext.steps ha⟩
  | .deferred name keeps build next, h =>
    intro W' t' hm
    obtain ⟨hacts, hnext⟩ := (h.moves hm).make _ (h.moves hm).halfway.deferred
    exact ⟨_, _, hacts, hnext.steps ha⟩
  | .attempt g text next, h =>
    obtain ⟨rfl, hg, hnext, hmeans⟩ := h.attempt ha
    refine Safe.bind (hrun hg (.start text) W _ t h.now) (fun o W' B' t' ho => ?_)
      fun hnone => (hmeans n).trans (entered_attempt_of_none hnone)
    obtain ⟨hamid, ho⟩ := ho
    have hnext' : (next o).Renamed .continuation (.on (W' ∪ B')) .empty (next o) :=
      (hnext o).mono (Link.on_mono hamid.view.subset) fun _ _ h => h
    have hmeans' : a.entered (Grammar.anewWithin n) s = (next o).entered (Grammar.anewWithin n) t' := by
      rw [hmeans, entered_attempt ho, hamid.view.entered (hnext o)]
    -- What is left begins here, with all that the run knows by now.
    have hsteps := (Amid.start hamid.now hnext').steps hnext'
    rw [union_empty] at hsteps
    exact Safe.mono hsteps (fun _ _ _ _ hr => .later (h.keepsView.trans hamid.view) hmeans' hr)
      hmeans'.trans
  | .publish name g next, h =>
    intro W' t' hm
    have h' := h.moves hm
    obtain ⟨hacts, hnext⟩ := h'.act h'.halfway.publish (Nat.le_refl _)
      (fun i hi => ⟨.inl hi, h'.parted.below i (.inr hi)⟩) fun _ _ _ => rfl
    exact ⟨_, _, hacts, hnext.steps ha⟩
termination_by structural rest

omit hrun in
theorem Ended.refuse {e : GrammarError} (h : Ended n (.error e) W made t role s U a B) :
    a.entered (Grammar.anewWithin n) s = fun _ => unending := by
  induction h with
  | here _ h ha => exact Amid.refuse h ha n
  | later _ hmeans _ ih => exact hmeans.trans ih

/-- As `steps`, where a refusal leaves nothing to go on with. -/
theorem Amid.stepped (h : Amid role s U a W B made rest t) (ha : a.Renamed role (.on U) .empty a) :
    (rest.stepped run).Safe (fun g W' B' t' => Ended n (.ok g) W' B' t' role s U a B)
      (a.entered (Grammar.anewWithin n) s = fun _ => unending) W (B ∪ made) t := by
  refine (h.steps hrun ha).bind (fun r W' B' t' hr => ?_) id
  cases r with
  | ok g => exact hr
  | error e => exact hr.refuse

/-- What was made is run in the view that the run has by then. -/
theorem Ended.endsAs (h : Ended n (.ok g) W made t role s U a B) (c : Cursor) :
    (run g c).EndsAs s U (a.entered (Grammar.anewWithin n) s c) W made t := by
  induction h with
  | here hB h ha =>
    subst hB
    have hmeaning := h.halfway.means h.view.settled h.view.subset n
    rw [h.view.entered ha.continuation] at hmeaning
    have hg := h.halfway.refers.mono h.on_le
    exact (hrun hg c W _ t h.now).before h.keepsView (by rw [hmeaning])
  | later hview hmeans _ ih => exact ih.before hview (by rw [hmeans])

end

namespace Amid

/-- Done, the assembly fills the slot that has put it off, unless another run has filled it already. -/
theorem finish (h : Amid .builder s U a W ∅ made (.done g) t) (hslot : slot ∈ U)
    (hst : s.stateAt slot = some (.deferred a)) :
    ∃ k, (t.defined slot g).stateAt slot = some (.filled k) ∧
      t.Acts W made (W ∪ made) ∅ (t.defined slot g) ∧
      s.Amid U (W ∪ made) ∅ (t.defined slot g) := by
  have hparted : t.Parted W made := by
    have := h.parted
    rwa [empty_union] at this
  have hview : s.KeepsView U t W := by
    have := h.view
    rwa [union_empty] at this
  have hW : slot ∈ W := hview.subset hslot
  have hdefined : ∀ i, (t.defined slot g).stateAt i =
      if i = slot then (t.stateAt slot).map (.given g) else t.stateAt i := Store.stateAt_defined g
  suffices hacts : ∃ k, (t.defined slot g).stateAt slot = some (.filled k) ∧
      t.Acts W made (W ∪ made) ∅ (t.defined slot g) by
    obtain ⟨k, hk, hacts⟩ := hacts
    refine ⟨k, hk, hacts, hparted.acts hacts, ?_⟩
    rw [union_empty]
    exact hview.trans (hacts.keepsView hparted.settled)
  rcases hview.slots hslot with hsame | ⟨_, k, -, hk⟩
  · have hdeferred := hsame.trans hst
    refine ⟨g, by rw [hdefined, if_pos rfl, hdeferred]; rfl, ?_⟩
    exact {
      size_le := (Store.size_defined g).ge
      view := Subset.rfl
      area := nofun
      apart := nofun
      below := nofun
      keeps := fun Q hQ hsettled => by
        rw [union_right_comm]
        exact h.halfway.fill hsettled (hview.subset.trans subset_union_left) (.inl hW) hdeferred
          fun hmade => hparted.apart slot hmade hW
      others := fun i _ hi _ => by
        have hne : i ≠ slot := fun heq => hi (heq ▸ hW)
        rw [hdefined, if_neg hne] }
  · have hsame : ∀ i, (t.defined slot g).stateAt i = t.stateAt i := by
      intro i
      rw [hdefined]
      by_cases hne : i = slot
      · rw [if_pos hne, hne, hk]
        rfl
      · rw [if_neg hne]
    refine ⟨k, (hsame slot).trans hk, ?_⟩
    exact Store.Parted.acts_share (h.halfway.settled hparted.settled hview.subset)
      (Store.size_defined g).ge fun i _ => hsame i

end Amid
end Assembly

namespace Grammar
open Steps

variable {s t : Store} {U W B : Set Nat} {n slot : Nat} {label : String} {g k : Grammar}
variable {run : Grammar → Parser Steps Value}

section
variable (hrun : ∀ {s : Store} {U : Set Nat} {g : Grammar}, g.Renamed (.on U) g →
  (besideMeaning s U).Parsers (run g) (g.anewWithin n s))
include hrun

/-- A slot is entered for the first time: what it has put off is built, and fills it. -/
theorem built_of_stepped {a : Assembly} (h : s.Amid U W ∅ t) (ha : a.Renamed .builder (.on U) .empty a)
    (hslot : slot ∈ U) (hst : s.stateAt slot = some (.deferred a)) :
    (do
      let g ← a.stepped run
      Steps.act (.finish slot g) .done).Safe
      (fun found W' B' t' =>
        ∃ k, found = some k ∧ t'.stateAt slot = some (SlotState.filled k) ∧ s.Amid U W' B' t')
      (a.entered (anewWithin n) s = fun _ => unending) W ∅ t := by
  have hstepped := (Assembly.Amid.start h ha).stepped hrun ha
  rw [union_empty] at hstepped
  refine hstepped.bind (fun g W' B' t' hg => ?_) id
  cases hg with
  | here hB hg _ =>
    subst hB
    intro W'' t'' hm
    obtain ⟨k, hk, hacts, hamid⟩ := (hg.moves hm).finish hslot hst
    rw [empty_union]
    exact ⟨_, _, hacts, k, Store.filled?_eq_some_iff.mpr hk, hk, hamid⟩

/-- An assembly that is carried out at once and then run. -/
theorem besideMeaning_stepped {a : Assembly} (ha : a.Renamed .continuation (.on U) .empty a) :
    (besideMeaning s U).Parsers (fun c => do run (← a.stepped run) c)
      (a.entered (anewWithin n) s) := by
  intro c W B t h
  have hstepped := (Assembly.Amid.start h ha).stepped hrun ha
  rw [union_empty] at hstepped
  refine hstepped.bind (fun g W' B' t' hg => hg.endsAs hrun c) fun hnone => ?_
  rw [hnone]
  rfl

theorem endsAs_found (h : s.Amid U W B t) (hslot : slot ∈ U)
    (hst : t.stateAt slot = some (.filled k)) (c : Cursor) :
    (run k c).EndsAs s U ((handle slot label).anewWithin (n + 1) s c) W B t := by
  have hk : k.Renamed (.on (W ∪ B)) k := h.view.settled.filled (h.view.subset hslot) hst
  have hhandle : (handle slot label).Renamed (.on U) (handle slot label) := ⟨slot, rfl, rfl, hslot⟩
  have hmeaning : (handle slot label).anewWithin (n + 1) t = k.anewWithin n t := by
    simp only [anewWithin, bare, anew, hst]
  exact (hrun hk c W B t h.now).before h.view (by rw [← h.view.anewWithin hhandle, hmeaning])

theorem besideMeaning_enter (hslot : slot ∈ U) (perform : Assembly → Steps Grammar) :
    (besideMeaning s U).Parsers ((handle slot label).parser run (Steps.enter run) perform)
      ((handle slot label).anewWithin (n + 1) s) := by
  have hhandle : (handle slot label).Renamed (.on U) (handle slot label) := ⟨slot, rfl, rfl, hslot⟩
  intro c W B t h W' t' hm
  obtain ⟨hacts, hamid⟩ :=
    (h.moves hm).share (Action.size_after_enter slot).ge (Action.stateAt_after_enter slot)
  refine ⟨_, _, hacts, ?_⟩
  have hstate : ((Action.enter slot).after t').stateAt slot = t'.stateAt slot :=
    Action.stateAt_after_enter slot slot
  generalize (Action.enter slot).after t' = u at hstate hamid
  have hmeaning := hamid.view.anewWithin hhandle (n + 1)
  obtain ⟨st, hst⟩ := hamid.view.settled.exists_state (hamid.view.subset hslot)
  rw [Action.answer, ← hstate]
  simp only [hst]
  cases st with
  | filled k => exact endsAs_found hrun hamid hslot hst c
  | unfilled | released =>
    refine ⟨hamid, ?_⟩
    rw [← hmeaning]
    simp only [anewWithin, bare, anew, hst]
    rfl
  | deferred build =>
    have hview := hamid.view
    have hnow := hamid.now
    rw [union_empty] at hview hnow
    have hbuild : build.Renamed .builder (.on (W' ∪ B)) .empty build :=
      hview.settled.deferred (hview.subset hslot) hst
    have hbuilt : (handle slot label).anewWithin (n + 1) u = build.entered (anewWithin n) u := by
      simp only [anewWithin, bare, anew, hst]
    refine Safe.bind (built_of_stepped hrun hnow hbuild (hview.subset hslot) hst)
      (fun found W'' B'' t'' h => ?_) fun hnone => ?_
    · obtain ⟨k, rfl, hk, hk'⟩ := h
      exact endsAs_found hrun (.trans hview hk') hslot hk c
    · rw [← hmeaning, hbuilt, hnone]
      rfl

end

/-- Run step by step to some depth, a grammar is safe, and ends as it means to the same depth. -/
theorem besideMeaning_stepsWithin (n : Nat) {s : Store} {U : Set Nat} {g : Grammar}
    (hg : g.Renamed (.on U) g) :
    (besideMeaning s U).Parsers (g.stepsWithin n) (g.anewWithin n s) := by
  induction n generalizing s U g with
  | zero => exact fun _ => (besideMeaning s U).unending
  | succ n ih =>
    have hrun : ∀ {s : Store} {U : Set Nat} {g : Grammar}, g.Renamed (.on U) g →
        (besideMeaning s U).Parsers (g.stepsWithin n) (g.anewWithin n s) := fun hg => ih hg
    have hbare : g.bare.Renamed (.on U) g.bare := Renamed.of_bare_eq g.bare_bare.symm hg.bare
    suffices h : (besideMeaning s U).Parsers
        (g.bare.parser (stepsWithin n) (Steps.enter (stepsWithin n))
          (Assembly.stepped (stepsWithin n))) (g.bare.anewWithin (n + 1) s) by
      rw [anewWithin, bare_bare] at h
      exact h
    cases hform : g.bare with
    | holding slots k => exact absurd hform (bare_ne_holding g)
    | chain h next =>
      rw [hform] at hbare
      obtain ⟨_, _, heq, hh, hnext⟩ := hbare
      obtain ⟨rfl, rfl⟩ := Grammar.chain.inj heq
      exact (hrun hh).chain fun v => besideMeaning_stepped hrun (hnext v)
    | handle slot label =>
      rw [hform] at hbare
      obtain ⟨_, heq, -, hslot⟩ := hbare
      exact besideMeaning_enter hrun hslot _
    | _ =>
      have hparts : ∀ p ∈ g.bare.parts,
          (besideMeaning s U).Parsers (p.stepsWithin n) (p.anewWithin n s) :=
        fun p hp => hrun (hbare.part hp)
      rw [hform] at hparts
      rw [anewWithin_succ_of_parts n s (by simp) (by simp) (by simp)]
      exact Relating.parser_of_parts hparts (by simp) (by simp)

end Grammar
end FurthestFailure
