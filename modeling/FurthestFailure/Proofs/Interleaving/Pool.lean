import FurthestFailure.Proofs.Interleaving.Endings
import FurthestFailure.Proofs.Stepping.SlotLife

/-! # Pools of runs

A pool is a store with runs that act on it one action at a time, in any order. A run may find a slot
filled by another, or put off when another is already building for it; then both build, and the one that
is done first fills it. Where a run waits instead until the other has filled the slot, it only acts
later, so that is one order of many. A run that has not yet acted has not yet begun.

The runs keep their areas apart, and each is safe, so whatever one does is what the others expect. Hence
each ends as it does alone in the store in which the pool began.
-/
namespace FurthestFailure
set_option autoImplicit false

/-- Runs that share a store. -/
structure Pool (ι : Type) where
  store : Store
  runs : ι → Steps (Outcome Value)

namespace Pool
variable {ι : Type}

/-- Every grammar is about to be run at its cursor, to its depth. -/
def begin (s : Store) (g : ι → Grammar) (c : ι → Cursor) (depth : ι → Nat) : Pool ι where
  store := s
  runs i := (g i).stepsWithin (depth i) (c i)

/-- The runs have areas apart from each other, and each is safe. -/
structure Safe (s : Store) (U : Set Nat) (x : ι → StateT Unit Option (Outcome Value)) (W : Set Nat)
    (B : ι → Set Nat) (p : Pool ι) : Prop where
  parted : ∀ i, p.store.Parted W (B i)
  apart : ∀ i j, i ≠ j → ∀ slot ∈ B i, slot ∉ B j
  ends : ∀ i, (p.runs i).EndsAs s U (x i) W (B i) p.store

theorem safe_begin {s : Store} {g : ι → Grammar} (hs : s.Scoped) (hg : ∀ i, s.Scopes (g i))
    (c : ι → Cursor) (depth : ι → Nat) :
    (begin s g c depth).Safe s {i | i < s.slots.size}
      (fun i => (g i).anewWithin (depth i) s (c i)) {i | i < s.slots.size} fun _ => ∅ := by
  have hamid : s.Amid {i | i < s.slots.size} {i | i < s.slots.size} ∅ s := {
    parted := { settled := hs.settled, apart := nofun, below := nofun }
    view := by
      rw [Set.union_empty]
      exact .grow hs.settled Set.Subset.rfl }
  exact {
    parted := fun _ => hamid.parted
    apart := nofun
    ends := fun i => Grammar.besideMeaning_stepsWithin (depth i) (hg i) (c i) _ _ s hamid }

section
variable {s : Store} {U W : Set Nat} {x : ι → StateT Unit Option (Outcome Value)} {B : ι → Set Nat}
variable {p : Pool ι} {i : ι}

theorem Safe.eq_of_done (h : p.Safe s U x W B) {o : Outcome Value} (ho : p.runs i = .done o) :
    x i () = some (o, ()) := by
  have hends := h.ends i
  rw [ho] at hends
  exact hends.2

theorem Safe.eq_none_of_stuck (h : p.Safe s U x W B) (hstuck : p.runs i = .stuck) :
    x i () = none := by
  have hends := h.ends i
  rw [hstuck] at hends
  exact hends

end

variable [DecidableEq ι]

/-- One of the runs acts once. -/
def step (p : Pool ι) (i : ι) : Pool ι where
  store := ((p.runs i).step p.store).2
  runs := Function.update p.runs i ((p.runs i).step p.store).1

/-- The pool after the first actions of a schedule. -/
def after (p : Pool ι) (schedule : Nat → ι) : Nat → Pool ι
  | 0 => p
  | k + 1 => (p.after schedule k).step (schedule k)

section
variable {s : Store} {U W : Set Nat} {x : ι → StateT Unit Option (Outcome Value)} {B : ι → Set Nat}
variable {p : Pool ι} {i : ι}

theorem Safe.act (h : p.Safe s U x W B) {B' W' : Set Nat} {t : Store} {τ : Steps (Outcome Value)}
    (hacts : p.store.Acts W (B i) W' B' t) (hτ : τ.EndsAs s U (x i) W' B' t) :
    (Pool.mk t (Function.update p.runs i τ)).Safe s U x W' (Function.update B i B') := by
  have hmoves : ∀ j, j ≠ i → p.store.Moves (B j) W W' t :=
    fun j hj => hacts.moves (h.parted j) (h.apart j i hj)
  have hfresh : ∀ j, j ≠ i → ∀ slot ∈ B', slot ∉ B j := by
    intro j hj slot hslot hB
    rcases hacts.area slot hslot with hi | hle
    · exact h.apart i j hj.symm slot hi hB
    · exact Nat.not_lt_of_le hle ((h.parted j).below slot hB)
  refine ⟨fun j => ?_, fun j k hjk slot hj hk => ?_, fun j => ?_⟩
  · by_cases hj : j = i
    · subst hj
      rw [Function.update_self]
      exact (h.parted j).acts hacts
    · rw [Function.update_of_ne hj]
      exact (h.parted j).moves (hmoves j hj)
  · by_cases hji : j = i
    · subst hji
      rw [Function.update_self] at hj
      rw [Function.update_of_ne hjk.symm] at hk
      exact hfresh k hjk.symm slot hj hk
    · rw [Function.update_of_ne hji] at hj
      by_cases hki : k = i
      · subst hki
        rw [Function.update_self] at hk
        exact hfresh j hji slot hk hj
      · rw [Function.update_of_ne hki] at hk
        exact h.apart j k hjk slot hj hk
  · by_cases hj : j = i
    · subst hj
      simp only [Function.update_self]
      exact hτ
    · simp only [Function.update_of_ne hj]
      exact Steps.Safe.moves (h.ends j) (hmoves j hj) fun _ ha => ⟨ha.1.moves (hmoves j hj), ha.2⟩

theorem Safe.step (h : p.Safe s U x W B) (i : ι) :
    ∃ W' B', (p.step i).Safe s U x W' B' := by
  have hends := h.ends i
  have hidle : ((p.runs i).step p.store) = (p.runs i, p.store) → p.step i = p := by
    intro heq
    rw [Pool.step, heq, Function.update_eq_self]
  cases hrun : p.runs i with
  | done o | stuck =>
    rw [hidle (by rw [hrun]; rfl)]
    exact ⟨W, B, h⟩
  | act y next =>
    rw [hrun] at hends
    obtain ⟨W', B', hacts, hnext⟩ := hends W p.store (.refl (h.parted i))
    rw [Pool.step, hrun]
    exact ⟨W', _, h.act hacts hnext⟩

theorem Safe.after (h : p.Safe s U x W B) (schedule : Nat → ι) (k : Nat) :
    ∃ W' B', (p.after schedule k).Safe s U x W' B' := by
  induction k with
  | zero => exact ⟨W, B, h⟩
  | succ k ih =>
    obtain ⟨W', B', h'⟩ := ih
    exact h'.step (schedule k)

theorem runs_step_of_ne {j : ι} (h : j ≠ i) : (p.step j).runs i = p.runs i :=
  Function.update_of_ne h.symm _ _

theorem runs_step (i : ι) : (p.step i).runs i = ((p.runs i).step p.store).1 :=
  Function.update_self _ _ _

variable {schedule : Nat → ι}

/-- The run is as it was when its turn comes. -/
theorem exists_turn (hfair : ∀ m, ∃ k, m ≤ k ∧ schedule k = i) (m : Nat) :
    ∃ k, schedule k = i ∧ (p.after schedule k).runs i = (p.after schedule m).runs i := by
  obtain ⟨k, hk, hturn⟩ := hfair m
  obtain ⟨wait, rfl⟩ := Nat.exists_eq_add_of_le hk
  clear hk
  induction wait generalizing m with
  | zero => exact ⟨m, hturn, rfl⟩
  | succ wait ih =>
    by_cases hm : schedule m = i
    · exact ⟨m, hm, rfl⟩
    · obtain ⟨k, hk, hsame⟩ := ih (m + 1) (by rw [Nat.succ_add_eq_add_succ, hturn])
      exact ⟨k, hk, hsame.trans (runs_step_of_ne hm)⟩

/-- A run whose meaning has an end comes to it. -/
theorem Safe.exists_done (h : p.Safe s U x W B) {o : Outcome Value} (ho : x i () = some (o, ()))
    (hfair : ∀ m, ∃ k, m ≤ k ∧ schedule k = i) :
    ∃ k, (p.after schedule k).runs i = .done o := by
  suffices hall : ∀ (τ : Steps (Outcome Value)) m, (p.after schedule m).runs i = τ →
      ∃ k, (p.after schedule k).runs i = .done o from hall _ 0 rfl
  intro τ
  -- On the actions that are left: with every turn there are fewer.
  induction τ with
  | done a =>
    intro m hm
    obtain ⟨W', B', h'⟩ := h.after schedule m
    have ha := h'.eq_of_done hm
    rw [ho] at ha
    cases ha
    exact ⟨m, hm⟩
  | stuck =>
    intro m hm
    obtain ⟨W', B', h'⟩ := h.after schedule m
    have hnone := h'.eq_none_of_stuck hm
    rw [ho] at hnone
    cases hnone
  | act y next ih =>
    intro m hm
    obtain ⟨k, hturn, hk⟩ := exists_turn (p := p) hfair m
    refine ih (y.answer (p.after schedule k).store) (k + 1) ?_
    rw [Pool.after, hturn, runs_step, hk, hm]
    rfl

end

/-- However the runs of a pool take turns, none ends but as it does alone in the store in which the pool
began; and if it ends there, it ends in the pool, unless it is kept from acting or its depth is too
small. -/
theorem runs_end_as_alone {s : Store} {g : ι → Grammar} (hs : s.Scoped) (hg : ∀ i, s.Scopes (g i))
    (c : ι → Cursor) (i : ι) (o : Outcome Value) :
    (∀ depth schedule k, ((begin s g c depth).after schedule k).runs i = .done o →
      (g i).Ends (c i) s o) ∧
    ((g i).Ends (c i) s o → ∃ least, ∀ depth schedule, least ≤ depth i →
      (∀ m, ∃ k, m ≤ k ∧ schedule k = i) →
        ∃ k, ((begin s g c depth).after schedule k).runs i = .done o) := by
  constructor
  · intro depth schedule k hk
    obtain ⟨W, B, h⟩ := (safe_begin hs hg c depth).after schedule k
    exact (Grammar.ends_iff hs (hg i)).mpr ⟨depth i, h.eq_of_done hk⟩
  · rintro ⟨least, store, hrun⟩
    refine ⟨least, fun depth schedule hdepth hfair => ?_⟩
    obtain ⟨⟨o', _⟩, hr, hleft⟩ :=
      Grammar.anewWithin_of_runWithin least hdepth (hg i) rfl (.refl hs) hrun
    obtain ⟨rfl, -⟩ := Correspondence.lockstep_left_iff.mp hleft
    exact (safe_begin hs hg c depth).exists_done hr hfair

def bracketingStore : Store := { slots := #[{ state := .deferred (.done (bracketing 0)) }] }

/-- Two runs take turns, one on `(x)` and one on `(x`. -/
theorem runs_end_as_alone_bracketing :
    bracketingStore.Scoped ∧ (∀ _ : Bool, bracketingStore.Scopes (.handle 0 "bracketing")) ∧
      ∃ depth k, ((begin bracketingStore (fun _ => .handle 0 "bracketing")
          (fun closed => .start (if closed then ['(', 'x', ')'] else ['(', 'x'])) depth).after
          (fun k => k % 2 == 0) k).runs true =
        .done (.success ⟨.list [.text "(", .text "x", .text ")"],
          ⟨['(', 'x', ')'], ⟨3, 1, 4⟩, []⟩, some (.failure ⟨1, 1, 2⟩ "'('")⟩) := by
  have hbracketing : (bracketing 0).Renamed (.below 1) (bracketing 0) := by
    simp [bracketing, Grammar.Renamed, Grammar.AllRenamed, Grammar.bare, Link.below]
  have hs : bracketingStore.Scoped := by
    rintro (_ | i) hi
    · exact ⟨_, _, rfl, rfl, .deferred ⟨_, rfl, hbracketing⟩⟩
    · exact absurd hi (by simp [bracketingStore])
  have hg : ∀ _ : Bool, bracketingStore.Scopes (.handle 0 "bracketing") :=
    fun _ => ⟨0, rfl, rfl, Nat.zero_lt_one⟩
  refine ⟨hs, hg, ?_⟩
  obtain ⟨least, hends⟩ := (runs_end_as_alone hs hg
    (fun closed => .start (if closed then ['(', 'x', ')'] else ['(', 'x'])) true _).2
    ⟨8, { slots := #[{ state := .filled (bracketing 0), builds := 1 }] }, rfl⟩
  exact ⟨fun _ => least, hends (fun _ => least) _ (Nat.le_refl _) fun m =>
    ⟨2 * m, by omega, by simp⟩⟩

end Pool
end FurthestFailure
