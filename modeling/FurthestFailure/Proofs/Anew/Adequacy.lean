import FurthestFailure.Proofs.Anew.Keeping
import FurthestFailure.Proofs.Unbounded

/-! # Runs do what is meant

In a scoped store a run ends as the meaning of the grammar says: whatever it fills, adds or finds
filled on its way, what comes after means what it meant at the beginning. In one direction the depth
of the run bounds the depth that the meaning takes; in the other direction the run without a bound
follows the meaning.
-/
namespace FurthestFailure
set_option autoImplicit false

open Correspondence

/-- In the store, from the cursor, the grammar ends with the outcome. -/
def Grammar.Ends (g : Grammar) (c : Cursor) (store : Store) (o : Outcome Value) : Prop :=
  ∃ depth after, g.runWithin depth c store = some (o, after)

namespace Store
variable {s t : Store} {g : Grammar}

/-- A run that goes on in stores that keep what `s` means, beside the meaning. -/
abbrev besideMeaning (s : Store) : Correspondence Store Unit := lockstep fun t _ => s.Keeps t

/-- The meaning, beside a run that goes on in stores that keep what `s` means. -/
abbrev besideRun (s : Store) : Correspondence Unit Store := lockstep fun _ t => s.Keeps t

end Store

namespace Grammar
variable {s : Store} {g : Grammar}

theorem anewWithin_succ_of_parts (n : Nat) (s : Store) (hholding : ∀ slots h, g ≠ .holding slots h)
    (hchain : ∀ h next, g ≠ .chain h next) (hhandle : ∀ slot label, g ≠ .handle slot label) :
    g.anewWithin (n + 1) s =
      g.parser (anewWithin n s) (fun _ => unending) fun _ => unending := by
  cases g with
  | holding slots h => exact absurd rfl (hholding slots h)
  | chain h next => exact absurd rfl (hchain h next)
  | handle slot label => exact absurd rfl (hhandle slot label)
  | _ => rfl

theorem scopes_chain {h : Grammar} {next : Value → Assembly} (hg : s.Scopes (.chain h next)) :
    s.Scopes h ∧ ∀ v, s.Admits .continuation (next v) := by
  obtain ⟨_, _, heq, hh, hnext⟩ := hg
  obtain ⟨rfl, rfl⟩ := Grammar.chain.inj heq
  exact ⟨hh, hnext⟩

section
variable {n : Nat} {run : Grammar → Parser Engine Value} {perform : Assembly → Engine Grammar}

section
variable (hrun : ∀ {s : Store} {g : Grammar}, s.Scopes g →
  s.besideMeaning.Agree Eq (run g) (g.anewWithin n s))
include hrun

/-- Carried out, a continuation makes what it means, and changes no meaning. -/
theorem entered_of_midway : ∀ {a : Assembly} {own : Link} {s t t' : Store} {k : Grammar},
    Assembly.Midway s t own a → a.perform run t = some (.ok k, t') →
      s.Keeps t' ∧ t'.Scopes k ∧ a.entered (anewWithin n) t = k.anewWithin n t'
  | .done _, _, _, _, _, _, h, hperform => by
    cases hperform
    exact ⟨h.keeps, h.done, rfl⟩
  | .refuse _, _, _, _, _, _, _, hperform => by cases hperform
  | .placeholder _, _, _, _, _, _, h, hperform => by
    rw [Assembly.entered]
    exact entered_of_midway h.placeholder hperform
  | .define _ _ _, _, _, _, _, _, h, hperform => by
    rw [Assembly.perform_define] at hperform
    rw [Assembly.entered]
    exact entered_of_midway h.define hperform
  | .deferred _ _ _ _, _, _, _, _, _, h, hperform => by
    rw [Assembly.perform_deferred] at hperform
    rw [Assembly.entered]
    exact entered_of_midway h.deferred hperform
  | .attempt g text next, _, _, t, _, _, h, hperform => by
    obtain ⟨⟨o, t₁⟩, hg, hrest⟩ := Option.bind_eq_some_iff.mp hperform
    obtain ⟨hscopes, hadmits⟩ := h.attempt
    obtain ⟨r, hmeant, hleft⟩ := hrun hscopes rfl (t := ()) (.refl h.now) hg
    obtain ⟨rfl, hkeeps⟩ := lockstep_left_iff.mp hleft
    obtain ⟨hkeeps', hk, hnext⟩ :=
      entered_of_midway (.start hkeeps.isScoped ((hadmits _).mono hkeeps.size_le)) hrest
    refine ⟨(h.keeps.trans hkeeps).trans hkeeps', hk, ?_⟩
    rw [← hnext, hkeeps.entered (hadmits _), Assembly.entered_attempt hmeant]
  | .publish _ _ _, _, _, _, _, _, h, hperform => by
    rw [Assembly.entered]
    exact entered_of_midway h.publish hperform

theorem agree_performed {a : Assembly} (ha : s.Admits .continuation a) :
    s.besideMeaning.Agree Eq (fun c => do run (← a.performed run) c)
      (a.entered (anewWithin n) s) := by
  rintro c _ rfl t _ ht r hr
  obtain ⟨⟨k, t'⟩, hperformed, hk⟩ := Option.bind_eq_some_iff.mp hr
  obtain ⟨hkeeps, hscopes, hmeaning⟩ := entered_of_midway hrun
    (.start ht.isScoped (ha.mono ht.size_le)) (Assembly.performed_eq_some_iff.mp hperformed)
  rw [← ht.entered ha, hmeaning]
  refine Follows.mono (hrun hscopes rfl (.refl hkeeps.isScoped)) (fun r r' h => ?_) hk
  obtain ⟨ho, hkeeps'⟩ := lockstep_left_iff.mp h
  exact lockstep_left_iff.mpr ⟨ho, (ht.trans hkeeps).trans hkeeps'⟩

theorem agree_entered {slot : Nat} {label : String} (hg : s.Scopes (.handle slot label)) :
    s.besideMeaning.Agree Eq ((handle slot label).parser run (Store.enter run) perform)
      ((handle slot label).anewWithin (n + 1) s) := by
  rintro c _ rfl t _ ht r hr
  obtain ⟨⟨found, t'⟩, henter, hfound⟩ := Option.bind_eq_some_iff.mp hr
  obtain ⟨hkeeps, hscopes, hmeaning⟩ := ht.isScoped.entering henter
  rw [← ht.anewWithin hg, hmeaning]
  cases found with
  | none =>
    cases hfound
    exact ⟨_, rfl, lockstep_left_iff.mpr ⟨rfl, ht.trans hkeeps⟩⟩
  | some g =>
    refine Follows.mono (hrun (hscopes g rfl) rfl (.refl hkeeps.isScoped)) (fun r r' h => ?_) hfound
    obtain ⟨ho, hkeeps'⟩ := lockstep_left_iff.mp h
    exact lockstep_left_iff.mpr ⟨ho, (ht.trans hkeeps).trans hkeeps'⟩

end

variable (hrun : ∀ {s : Store} {g : Grammar}, s.Scopes g →
  s.besideRun.Agree Eq (g.anewWithin n s) (run g))
include hrun

/-- A continuation that means something at the cursor can be carried out. -/
theorem perform_of_entered : ∀ {a : Assembly} {own : Link} {s t : Store} {c : Cursor}
    {r : Outcome Value × Unit},
    Assembly.Midway s t own a → a.entered (anewWithin n) t c () = some r →
      ∃ k t', a.perform run t = some (.ok k, t') ∧ s.Keeps t' ∧ t'.Scopes k ∧
        k.anewWithin n t' c () = some r
  | .done k, _, _, t, _, _, h, hr => ⟨k, t, rfl, h.keeps, h.done, hr⟩
  | .refuse _, _, _, _, _, _, _, hr => by cases hr
  | .placeholder _, _, _, _, _, _, h, hr => by
    rw [Assembly.entered] at hr
    obtain ⟨k, t', hperform, hk⟩ := perform_of_entered h.placeholder hr
    exact ⟨k, t', hperform, hk⟩
  | .define _ _ _, _, _, _, _, _, h, hr => by
    rw [Assembly.entered] at hr
    rw [Assembly.perform_define]
    exact perform_of_entered h.define hr
  | .deferred _ _ _ _, _, _, _, _, _, h, hr => by
    rw [Assembly.entered] at hr
    rw [Assembly.perform_deferred]
    exact perform_of_entered h.deferred hr
  | .attempt g text next, _, _, t, _, _, h, hr => by
    obtain ⟨⟨o, _⟩, hg, hrest⟩ := Option.bind_eq_some_iff.mp hr
    obtain ⟨hscopes, hadmits⟩ := h.attempt
    obtain ⟨⟨o', t₁⟩, hperform, hleft⟩ := hrun hscopes rfl (.refl h.now) hg
    obtain ⟨rfl, hkeeps⟩ := lockstep_left_iff.mp hleft
    have hrest' : (next o).entered (anewWithin n) t₁ _ () = some _ :=
      (congrFun (congrFun (hkeeps.entered (hadmits o) n) _) ()).trans hrest
    obtain ⟨k, t', hnext, hkeeps', hk⟩ :=
      perform_of_entered (.start hkeeps.isScoped ((hadmits o).mono hkeeps.size_le)) hrest'
    exact ⟨k, t', Option.bind_eq_some_iff.mpr ⟨_, hperform, hnext⟩,
      (h.keeps.trans hkeeps).trans hkeeps', hk⟩
  | .publish _ _ _, _, _, _, _, _, h, hr => by
    rw [Assembly.entered] at hr
    obtain ⟨k, t', hperform, hk⟩ := perform_of_entered h.publish hr
    exact ⟨k, t', hperform, hk⟩

theorem agree_entered_performed {a : Assembly} (ha : s.Admits .continuation a) :
    s.besideRun.Agree Eq (a.entered (anewWithin n) s)
      (fun c => do run (← a.performed run) c) := by
  rintro c _ rfl _ t ht r hr
  rw [← ht.entered ha] at hr
  obtain ⟨k, t', hperform, hkeeps, hscopes, hk⟩ :=
    perform_of_entered hrun (.start ht.isScoped (ha.mono ht.size_le)) hr
  obtain ⟨r', hr', hleft⟩ := hrun hscopes rfl (.refl hkeeps.isScoped) hk
  obtain ⟨ho, hkeeps'⟩ := lockstep_left_iff.mp hleft
  exact ⟨r', Option.bind_eq_some_iff.mpr
      ⟨_, Assembly.performed_eq_some_iff.mpr hperform, hr'⟩,
    lockstep_left_iff.mpr ⟨ho, (ht.trans hkeeps).trans hkeeps'⟩⟩

theorem agree_handle_enter {slot : Nat} {label : String} (hg : s.Scopes (.handle slot label)) :
    s.besideRun.Agree Eq ((handle slot label).anewWithin (n + 1) s)
      ((handle slot label).parser run (Store.enter run) perform) := by
  rintro c _ rfl _ t ht r hr
  rw [← ht.anewWithin hg] at hr
  obtain ⟨found, t', henter⟩ := ht.isScoped.exists_enter run hr
  obtain ⟨hkeeps, hscopes, hmeaning⟩ := ht.isScoped.entering henter
  rw [hmeaning] at hr
  cases found with
  | none =>
    cases hr
    exact ⟨_, Option.bind_eq_some_iff.mpr ⟨_, henter, rfl⟩,
      lockstep_left_iff.mpr ⟨rfl, ht.trans hkeeps⟩⟩
  | some g =>
    obtain ⟨r', hr', hleft⟩ := hrun (hscopes g rfl) rfl (.refl hkeeps.isScoped) hr
    obtain ⟨ho, hkeeps'⟩ := lockstep_left_iff.mp hleft
    exact ⟨r', Option.bind_eq_some_iff.mpr ⟨_, henter, hr'⟩,
      lockstep_left_iff.mpr ⟨ho, (ht.trans hkeeps).trans hkeeps'⟩⟩

end

/-- What a bounded run ends with, the meaning ends with as well. -/
theorem anewWithin_of_runWithin (n : Nat) {m : Nat} (hnm : n ≤ m) (hg : s.Scopes g) :
    s.besideMeaning.Agree Eq (g.runWithin n) (g.anewWithin m s) := by
  induction n generalizing m s g with
  | zero => exact fun _ _ _ _ _ _ => Follows.none
  | succ n ih =>
    obtain ⟨m, rfl⟩ : ∃ k, m = k + 1 := ⟨m - 1, by omega⟩
    have hrun : ∀ {s : Store} {g : Grammar}, s.Scopes g →
        s.besideMeaning.Agree Eq (g.runWithin n) (g.anewWithin m s) := fun hg => ih (by omega) hg
    have hparts : ∀ p ∈ g.parts, s.besideMeaning.Agree Eq (p.runWithin n) (p.anewWithin m s) :=
      fun p hp => hrun (hg.part hp)
    cases g with
    | holding slots g => exact ih (show n ≤ m + 1 by omega) (hg.part (.head _))
    | chain g next =>
      obtain ⟨hg, hnext⟩ := scopes_chain hg
      have hchain : s.besideMeaning.Agree Eq
          ((g.runWithin n).chain fun v c => do runWithin n (← (next v).performed (runWithin n)) c)
          ((g.anewWithin m s).chain fun v => (next v).entered (anewWithin m) s) := by
        refine Agree.chain (hrun hg) ?_
        rintro v _ rfl
        exact agree_performed hrun (hnext v)
      exact hchain
    | handle slot label => exact agree_entered hrun hg
    | _ =>
      rw [anewWithin_succ_of_parts m s (by simp) (by simp) (by simp)]
      exact lockstep_of_parts hparts (by simp) (by simp)

theorem unbounded_of_bare : ∀ {g : Grammar} {c : Cursor} {r : Outcome Value × Store},
    g.bare.unbounded c s = some r → g.unbounded c s = some r
  | .holding _ g, _, _, h => unbounded_of_parts (unbounded_of_bare (g := g) h)
  | .leaf _, _, _, h | .map _ _, _, _, h | .chain _ _, _, _, h | .sequence _, _, _, h
  | .choice _, _, _, h | .many _, _, _, h | .times _ _, _, _, h | .separatedBy _ _, _, _, h
  | .separatedBy1 _ _, _, _, h | .lookahead _, _, _, h | .optional _, _, _, h
  | .notFollowedBy _, _, _, h | .describe _ _, _, _, h | .mark _, _, _, h | .node _ _, _, _, h
  | .handle _ _, _, _, h => h

/-- What the meaning ends with, the run without a bound ends with as well. -/
theorem unbounded_of_anewWithin (n : Nat) (hg : s.Scopes g) :
    s.besideRun.Agree Eq (g.anewWithin n s) g.unbounded := by
  induction n generalizing s g with
  | zero => exact fun _ _ _ _ _ _ => Follows.none
  | succ n ih =>
    have hrun : ∀ {s : Store} {g : Grammar}, s.Scopes g →
        s.besideRun.Agree Eq (g.anewWithin n s) g.unbounded := fun hg => ih hg
    have hbare : s.Scopes g.bare := Renamed.of_bare_eq g.bare_bare.symm hg.bare
    suffices h : s.besideRun.Agree Eq (g.bare.anewWithin (n + 1) s)
        (g.bare.parser unbounded (Store.enter unbounded) (Assembly.performed unbounded)) by
      rw [anewWithin, bare_bare] at h
      intro c d hcd t t' ht r hr
      obtain ⟨b, hb, hleft⟩ := h hcd ht hr
      exact ⟨b, unbounded_of_bare (unbounded_of_parts hb), hleft⟩
    have hparts : ∀ p ∈ g.bare.parts, s.besideRun.Agree Eq (p.anewWithin n s) p.unbounded :=
      fun p hp => hrun (hbare.part hp)
    cases hform : g.bare with
    | holding slots k => exact absurd hform (bare_ne_holding g)
    | chain h next =>
      rw [hform] at hbare
      obtain ⟨hh, hnext⟩ := scopes_chain hbare
      have hchain : s.besideRun.Agree Eq
          ((h.anewWithin n s).chain fun v => (next v).entered (anewWithin n) s)
          (h.unbounded.chain fun v c => do unbounded (← (next v).performed unbounded) c) := by
        refine Agree.chain (hrun hh) ?_
        rintro v _ rfl
        exact agree_entered_performed hrun (hnext v)
      exact hchain
    | handle slot label =>
      rw [hform] at hbare
      exact agree_handle_enter hrun hbare
    | _ =>
      rw [hform] at hparts
      rw [anewWithin_succ_of_parts n s (by simp) (by simp) (by simp)]
      exact lockstep_of_parts hparts (by simp) (by simp)

/-- A grammar ends in a scoped store as its meaning does. -/
theorem ends_iff (hs : s.Scoped) (hg : s.Scopes g) {c : Cursor} {o : Outcome Value} :
    g.Ends c s o ↔ ∃ n, g.anewWithin n s c () = some (o, ()) := by
  constructor
  · rintro ⟨depth, after, h⟩
    obtain ⟨⟨o', _⟩, hr, hleft⟩ := anewWithin_of_runWithin depth (Nat.le_refl depth) hg rfl (.refl hs) h
    obtain ⟨rfl, -⟩ := lockstep_left_iff.mp hleft
    exact ⟨depth, hr⟩
  · rintro ⟨n, h⟩
    obtain ⟨⟨o', after⟩, hr, hleft⟩ := unbounded_of_anewWithin n hg rfl (.refl hs) h
    obtain ⟨rfl, -⟩ := lockstep_left_iff.mp hleft
    obtain ⟨depth, hdepth⟩ := unbounded_eq_some_iff.mp hr
    exact ⟨depth, after, hdepth⟩

theorem ends_iff_unbounded {c : Cursor} {o : Outcome Value} :
    g.Ends c s o ↔ ∃ s', g.unbounded c s = some (o, s') := by
  simp only [Ends, unbounded_eq_some_iff]
  exact exists_comm

theorem Ends.unique {c : Cursor} {o o' : Outcome Value} (h : g.Ends c s o) (h' : g.Ends c s o') :
    o = o' := by
  obtain ⟨_, _, hrun⟩ := h
  obtain ⟨_, _, hrun'⟩ := h'
  exact congrArg Prod.fst (runWithin_agrees hrun hrun')

end Grammar
end FurthestFailure
