import FurthestFailure.Proofs.Anew.Adequacy
import FurthestFailure.Proofs.Renaming.Uniform

/-! # Recursive grammars and references unfold

A grammar that refers to itself ends exactly as what its builder makes of it, when the builder is
given the finished grammar. So does a reference, whose builder has not run yet.
-/
namespace FurthestFailure
set_option autoImplicit false

namespace Grammar

/-- The grammar ends in the one store exactly as `h` does in the other. -/
def EndsAs (g : Grammar) (s : Store) (h : Grammar) (t : Store) : Prop :=
  ∀ c o, g.Ends c s o ↔ h.Ends c t o

variable {s t : Store} {g h : Grammar}

theorem endsAs_of_anewWithin (hs : s.Scoped) (hg : s.Scopes g) (ht : t.Scoped) (hh : t.Scopes h)
    (hstep : ∀ n, g.anewWithin (n + 1) s = h.anewWithin n t) : g.EndsAs s h t := by
  intro c o
  rw [ends_iff hs hg, ends_iff ht hh]
  constructor
  · rintro ⟨n, hn⟩
    cases n with
    | zero => cases hn
    | succ n => exact ⟨n, hstep n ▸ hn⟩
  · rintro ⟨n, hn⟩
    exact ⟨n + 1, (hstep n).symm ▸ hn⟩

theorem endsAs_of_alike (hs : s.Scoped) (hg : s.Scopes g) (ht : t.Scoped) (hh : t.Scopes h)
    (halike : ∀ n, g.anewWithin n s = h.anewWithin n t) : g.EndsAs s h t := by
  intro c o
  rw [ends_iff hs hg, ends_iff ht hh]
  simp only [halike]

theorem scopes_handle {slot : Nat} {st : SlotState} (h : s.stateAt slot = some st) (slots : List Nat)
    (label : String) : s.Scopes (.holding slots (.handle slot label)) :=
  ⟨slot, rfl, rfl, Store.lt_size_of_stateAt h⟩

/-- A handle to a filled slot ends as what is made by a renaming of the assembly that made what the
slot holds. -/
theorem endsAs_remade (run : Grammar → Parser Engine Value) {a b : Assembly} (hs : s.Scoped)
    {slot : Nat} (hslot : s.stateAt slot = some (.filled h)) (hh : s.Yielded b h) (ha : s.Admits .builder a)
    (hab : a.Renamed .builder (.below s.slots.size) .empty b) (slots : List Nat) (label : String) :
    ∃ g t, a.perform run s = some (.ok g, t) ∧
      (holding slots (handle slot label)).EndsAs s g t := by
  obtain ⟨g, t, hperform, hkept, hg⟩ := Assembly.exists_perform_of_yielded run hab hh s
  obtain ⟨ht, hscopes, -⟩ := hs.perform ha hperform
  refine ⟨g, t, hperform, endsAs_of_anewWithin hs (scopes_handle hslot slots label) ht hscopes ?_⟩
  intro n
  have hfilled : (holding slots (handle slot label)).anewWithin (n + 1) s = h.anewWithin n s := by
    simp only [anewWithin, bare, anew, hslot]
  have hmade : g.anewWithin n t = h.anewWithin n s :=
    Assembly.run_of_yielded (fun h hg => anewWithin_alike n h hg)
      (fun i j hij => (hs.meanAlike i j hij).kept hkept (.refl s)) hab hg hh
  rw [hfilled, hmade]

end Grammar

namespace Assembling
variable {s : Store} {build : Grammar → Assembly}

theorem recursive_admitted (hbuild : s.Uniform build) (label : String) :
    s.Admits .builder (recursive label (fun g => (build g).andThen) .done) := by
  refine ⟨_, rfl, fun i j => ?_⟩
  have hhandle : (Grammar.handle i label).Renamed ((Link.below s.slots.size).add i j)
      (.handle j label) := ⟨j, rfl, .inr ⟨rfl, rfl⟩⟩
  have hbody := hbuild (fun _ _ h => .inl h) hhandle
  refine (hbody.mono (fun _ _ h => h) (by nofun)).andThen fun hρ hown hg => ?_
  exact ⟨j, _, _, rfl, hown i j (.inr ⟨rfl, rfl⟩), hg, _, rfl, j, rfl, hρ i j (.inr ⟨rfl, rfl⟩)⟩

theorem reference_admitted (hbuild : s.Uniform build) (name : String) (keeps : List Nat) :
    s.Admits .builder (reference name keeps (fun g => (build g).andThen) .done) := by
  have hitself : ∀ i j, (Grammar.holding [i] (.handle i name)).Renamed
      ((Link.below s.slots.size).add i j) (.holding [j] (.handle j name)) :=
    fun i j => ⟨j, rfl, .inr ⟨rfl, rfl⟩⟩
  refine ⟨_, _, _, rfl, fun i j => ?_, fun i j => ⟨_, rfl, hitself i j⟩⟩
  simp only [Assembly.andThen_done]
  exact hbuild (fun _ _ h => .inl h) (hitself i j)

/-- A recursive grammar ends exactly as what its builder makes of it. -/
theorem recursive_unfolds (hs : s.Scoped) (hbuild : s.Uniform build) (label : String)
    (run : Grammar → Parser Engine Value) :
    ∃ result t, (recursive label (fun g => (build g).andThen) .done).perform run s =
        some (result, t) ∧ ∀ r, result = .ok r →
      ∃ g u, (build r).perform run t = some (.ok g, u) ∧ r.EndsAs t g u := by
  have hadmitted := recursive_admitted hbuild label
  obtain ⟨result, t, hresult⟩ := Assembly.exists_perform run hadmitted s
  refine ⟨result, t, hresult, ?_⟩
  rintro r rfl
  obtain ⟨ht, -, hkept⟩ := hs.perform hadmitted hresult
  generalize hpushed : ({ s with slots := s.slots.push { state := .unfilled } } : Store) = pushed
  have hsize : pushed.slots.size = s.slots.size + 1 := by simp [← hpushed]
  have hunfilled : pushed.stateAt s.slots.size = some .unfilled := by
    rw [← hpushed, Store.stateAt_push, if_pos rfl]
  have hpushedBelow : ∀ i j, Link.below s.slots.size i j → Link.below pushed.slots.size i j :=
    Store.below_mono (by omega)
  have hself : pushed.Scopes (.handle s.slots.size label) := ⟨_, rfl, rfl, by omega⟩
  -- The builder was given the handle of the new slot, and the slot was filled with what it made.
  have hmade : ((build (.handle s.slots.size label)).andThen fun g =>
      .define s.slots.size g (.done (.holding [s.slots.size] (.handle s.slots.size label)))).perform
        run pushed = some (.ok r, t) := by
    rw [← hpushed]
    exact hresult
  rw [Assembly.perform_andThen] at hmade
  obtain ⟨⟨made, after⟩, hbody, hdefined⟩ := Option.bind_eq_some_iff.mp hmade
  cases made with
  | error e => cases hdefined
  | ok g =>
    simp only [Assembly.perform_define] at hdefined
    cases hdefined
    have hbelow : ∀ i j, Link.below s.slots.size i j →
        Link.below (after.defined s.slots.size g).slots.size i j :=
      Store.below_mono hkept.size_le
    have hbodyKept : pushed.KeptIn after := Assembly.perform_kept (hbuild hpushedBelow hself) hbody
    have hfilled : (after.defined s.slots.size g).stateAt s.slots.size = some (.filled g) := by
      rw [Store.stateAt_defined, if_pos rfl, hbodyKept hunfilled]
      rfl
    have hhandle := Grammar.scopes_handle hfilled [s.slots.size] label
    refine Grammar.endsAs_remade run ht hfilled ⟨run, pushed, after, hbody, fun k st hle hk => ?_⟩
      (hbuild hbelow hhandle) (hbuild hbelow ⟨_, rfl, ?_⟩) _ _
    · rw [Store.stateAt_defined, if_neg (by omega), hk]
    · exact ⟨rfl, Store.lt_size_of_stateAt hfilled⟩

/-- A reference ends exactly as what its builder makes of it, and does not end where the builder
refuses. -/
theorem reference_unfolds (hs : s.Scoped) (hbuild : s.Uniform build) (name : String)
    (keeps : List Nat) (run : Grammar → Parser Engine Value) :
    ∃ r t result u, (reference name keeps (fun g => (build g).andThen) .done).perform run s =
        some (.ok r, t) ∧ (build r).perform run t = some (result, u) ∧
      (∀ g, result = .ok g → r.EndsAs t g u) ∧
      ∀ e, result = .error e → ∀ c o, ¬ r.Ends c t o := by
  have hadmitted := reference_admitted hbuild name keeps
  generalize hr : Grammar.holding [s.slots.size] (.handle s.slots.size name) = r
  generalize hslot : ({ state := .deferred (build r), name := some name
                        keeps := s.slots.size :: keeps } : Slot) = slot
  generalize ht : ({ s with slots := s.slots.push slot } : Store) = t
  have hmade : (reference name keeps (fun g => (build g).andThen) .done).perform run s =
      some (.ok r, t) := by
    rw [← ht, ← hslot, reference, Assembly.perform_deferred]
    simp only [Assembly.andThen_done, hr]
    rfl
  obtain ⟨hscoped, hscopes, hkept⟩ := hs.perform hadmitted hmade
  have hbuilt : t.Admits .builder (build r) := hbuild (Store.below_mono hkept.size_le) hscopes
  have hdeferred : t.stateAt s.slots.size = some (.deferred (build r)) := by
    rw [← ht, Store.stateAt_push, if_pos rfl, ← hslot]
  have hmeaning : ∀ n, r.anewWithin (n + 1) t = (build r).entered (Grammar.anewWithin n) t := by
    intro n
    rw [← hr] at hdeferred ⊢
    simp only [Grammar.anewWithin, Grammar.bare, Grammar.anew, hdeferred]
  obtain ⟨result, u, hresult⟩ := Assembly.exists_perform run hbuilt t
  refine ⟨r, t, result, u, hmade, hresult, ?_, ?_⟩
  · rintro g rfl
    obtain ⟨hu, hg, -⟩ := hscoped.perform hbuilt hresult
    rw [Assembly.perform_eq run untried hbuilt] at hresult
    refine Grammar.endsAs_of_anewWithin hscoped hscopes hu hg fun n => ?_
    rw [hmeaning, Assembly.entered_of_perform hbuilt hresult]
  · rintro e rfl c o hends
    obtain ⟨n, hn⟩ := (Grammar.ends_iff hscoped hscopes).mp hends
    cases n with
    | zero => cases hn
    | succ n =>
      rw [hmeaning] at hn
      obtain ⟨g, v, hperformed⟩ := Assembly.exists_performed_of_entered run hbuilt hn
      rw [Assembly.performed_eq_some_iff, hresult] at hperformed
      cases hperformed

end Assembling
end FurthestFailure
