import FurthestFailure.Proofs.Renaming.Assembling

/-! # Building anew

What a grammar does can be told without a store that changes on the way: what a slot has put off is
built anew whenever the slot is entered, in the store of the beginning, and so is what a continuation
assembles; nothing of it is left behind, nor of what a continuation tries. So a grammar has one meaning
in a store.

Grammars that are renamings of each other mean the same in stores whose linked slots hold alike. They
also do where the slots hold what renamings of one assembly made, or where one of the stores has built
already what the other has put off, as long as nothing has become of what was made then.
-/
namespace FurthestFailure
set_option autoImplicit false

/-- Trying no grammar. -/
abbrev untried : Grammar → Parser Engine Value := fun _ _ => unending

/-- The parser that the assembly makes, in a store of its own. -/
def Assembly.entered (run : Store → Grammar → Parser (StateT Unit Option) Value) :
    Assembly → Store → Parser (StateT Unit Option) Value
  | done g, store => run store g
  | refuse _, _ => fun _ => unending
  | placeholder next, store =>
    (next store.slots.size).entered run
      { store with slots := store.slots.push { state := .unfilled } }
  | define slot g next, store => next.entered run (store.defined slot g)
  | deferred name keeps build next, store =>
    (next store.slots.size).entered run
      { store with slots := store.slots.push
                    { state := .deferred (build store.slots.size), name := some name
                      keeps := store.slots.size :: keeps } }
  | attempt g text next, store => fun c => do
    (next (← run store g (.start text))).entered run store c
  | publish name g next, store =>
    next.entered run { store with published := (name, g) :: store.published }

namespace Grammar

/-- The parser of a grammar around which nothing is held, given how to run its parts in a store. -/
def anew (run : Store → Grammar → Parser (StateT Unit Option) Value) (store : Store) :
    Grammar → Parser (StateT Unit Option) Value
  | handle slot label =>
    match store.stateAt slot with
    | some (.filled g) => run store g
    | some (.deferred build) => build.entered run store
    | some .unfilled | some .released | none => fun c => return c.fail label
  | chain g next => (run store g).chain fun v => (next v).entered run store
  | g => g.parser (run store) (fun _ => unending) fun _ => unending

/-- Runs the grammar to at most the given depth, with nothing kept from any part of the run for
another. -/
def anewWithin : Nat → Store → Grammar → Parser (StateT Unit Option) Value
  | 0, _, _ => fun _ => unending
  | depth + 1, store, g => g.bare.anew (anewWithin depth) store

end Grammar

namespace Store
variable {ρ : Link} {s t s' t' : Store} {i j : Nat}

/-- All slots of the first store are in the second one, and hold what they held. -/
def KeptIn (s t : Store) : Prop := ∀ ⦃i st⦄, s.stateAt i = some st → t.stateAt i = some st

theorem KeptIn.refl (s : Store) : s.KeptIn s := fun _ _ h => h

theorem KeptIn.size_le (h : s.KeptIn t) : s.slots.size ≤ t.slots.size := by
  refine Nat.le_of_not_lt fun hlt => ?_
  obtain ⟨st, hst⟩ := exists_stateAt hlt
  exact Nat.lt_irrefl _ (lt_size_of_stateAt (h hst))

theorem keptIn_of_old (h : ∀ i, i < s.slots.size → t.stateAt i = s.stateAt i) : s.KeptIn t := by
  intro i st hst
  rw [h i (lt_size_of_stateAt hst), hst]

theorem KeptIn.push (h : s.KeptIn t) (a : Slot) : s.KeptIn { t with slots := t.slots.push a } := by
  intro i st hi
  have hlt := lt_size_of_stateAt (h hi)
  rw [stateAt_push, if_neg (Nat.ne_of_lt hlt), h hi]

theorem KeptIn.defined (h : s.KeptIn t) {slot : Nat} (hslot : s.slots.size ≤ slot) (g : Grammar) :
    s.KeptIn (t.defined slot g) := by
  intro i st hi
  have hlt := lt_size_of_stateAt hi
  rw [stateAt_defined, if_neg (by omega), h hi]

theorem Grown.left_kept {count : Nat} (h : Grown ρ s t count s' t') : s.KeptIn s' :=
  keptIn_of_old h.left_old

theorem Grown.right_kept {count : Nat} (h : Grown ρ s t count s' t') : t.KeptIn t' :=
  keptIn_of_old h.right_old

theorem HoldAlike.kept (h : HoldAlike ρ s t i j) (hs : s.KeptIn s') (ht : t.KeptIn t') :
    HoldAlike ρ s' t' i j := by
  obtain ⟨st, st', hi, hj, hst⟩ := h
  exact ⟨st, st', hs hi, ht hj, hst⟩

/-- The grammar is what the assembly made at some time, and the slots made for it then are still in
the store as they were. -/
def Yielded (store : Store) (a : Assembly) (g : Grammar) : Prop :=
  ∃ run before after, a.perform run before = some (.ok g, after) ∧
    ∀ k st, before.slots.size ≤ k → after.stateAt k = some st → store.stateAt k = some st

theorem Yielded.kept {a : Assembly} {g : Grammar} (h : s.Yielded a g) (hs : s.KeptIn s') :
    s'.Yielded a g := by
  obtain ⟨run, before, after, hperform, hkept⟩ := h
  exact ⟨run, before, after, hperform, fun k st hle hst => hs (hkept k st hle hst)⟩

/-- The slots hold the same up to the link, or what the same builder made up to the link, or the
second holds what the first has put off. -/
inductive MeanAlike (ρ : Link) (s t : Store) (i j : Nat) : Prop
  | held (h : HoldAlike ρ s t i j)
  | made {a b : Assembly} {g h : Grammar} (hs : s.stateAt i = some (.filled g))
    (ht : t.stateAt j = some (.filled h)) (hab : a.Renamed .builder ρ .empty b) (hg : s.Yielded a g)
    (hh : t.Yielded b h)
  | built {a b : Assembly} {h : Grammar} (hs : s.stateAt i = some (.deferred a))
    (ht : t.stateAt j = some (.filled h)) (hab : a.Renamed .builder ρ .empty b) (hh : t.Yielded b h)

theorem MeanAlike.mono {ρ' : Link} (h : MeanAlike ρ s t i j) (hρ : ∀ i j, ρ i j → ρ' i j) :
    MeanAlike ρ' s t i j := by
  cases h with
  | held h => exact .held (h.mono hρ)
  | made hs ht hab hg hh => exact .made hs ht (hab.mono hρ fun _ _ h => h) hg hh
  | built hs ht hab hh => exact .built hs ht (hab.mono hρ fun _ _ h => h) hh

theorem MeanAlike.kept (h : MeanAlike ρ s t i j) (hs : s.KeptIn s') (ht : t.KeptIn t') :
    MeanAlike ρ s' t' i j := by
  cases h with
  | held h => exact .held (h.kept hs ht)
  | made hi hj hab hg hh => exact .made (hs hi) (ht hj) hab (hg.kept hs) (hh.kept ht)
  | built hi hj hab hh => exact .built (hs hi) (ht hj) hab (hh.kept ht)

theorem MeanAlike.exists_stateAt (h : MeanAlike ρ s t i j) :
    (∃ st, s.stateAt i = some st) ∧ ∃ st, t.stateAt j = some st := by
  cases h with
  | held h =>
    obtain ⟨st, st', hi, hj, -⟩ := h
    exact ⟨⟨st, hi⟩, st', hj⟩
  | made hi hj => exact ⟨⟨_, hi⟩, _, hj⟩
  | built hi hj => exact ⟨⟨_, hi⟩, _, hj⟩

end Store

namespace Assembly
variable {ρ : Link} {s t : Store} {a b : Assembly} {g h : Grammar}

theorem performed_eq_some_iff {run : Grammar → Parser Engine Value} {s' : Store} :
    a.performed run s = some (g, s') ↔ a.perform run s = some (.ok g, s') := by
  rw [performed]
  constructor
  · intro h
    obtain ⟨⟨r, s''⟩, hr, h⟩ := Option.bind_eq_some_iff.mp h
    cases r with
    | ok g =>
      cases h
      exact hr
    | error e => cases h
  · intro h
    exact Option.bind_eq_some_iff.mpr ⟨_, h, rfl⟩

-- Without an attempt, the assembly is carried out in one go.
theorem entered_eq (run : Store → Grammar → Parser (StateT Unit Option) Value) :
    ∀ {a b : Assembly} {ρ own : Link}, a.Renamed .builder ρ own b → ∀ s, a.entered run s =
      match a.perform untried s with
      | some (.ok g, s') => run s' g
      | _ => fun _ => unending
  | .done _, _, _, _, _, _ | .refuse _, _, _, _, _, _ => rfl
  | .placeholder _, _, _, _, ⟨_, _, hnext⟩, s =>
    entered_eq run (hnext s.slots.size s.slots.size) _
  | .define slot g next, _, _, _, ⟨_, _, _, _, _, _, hnext⟩, s => by
    rw [perform_define]
    exact entered_eq run hnext _
  | .deferred _ _ _ _, _, _, _, ⟨_, _, _, _, _, hnext⟩, s => by
    rw [perform_deferred]
    exact entered_eq run (hnext s.slots.size s.slots.size) _
  | .attempt _ _ _, _, _, _, h, _ => (not_renamed_attempt h).elim
  | .publish _ _ _, _, _, _, ⟨_, _, _, _, hnext⟩, _ => entered_eq run hnext _

section
variable {run : Store → Grammar → Parser (StateT Unit Option) Value} {text : List Char}
variable {next : Outcome Value → Assembly}

theorem entered_attempt {o : Outcome Value} (h : run s g (.start text) () = some (o, ())) :
    (attempt g text next).entered run s = (next o).entered run s := by
  funext c u
  exact congrArg (fun x : Option (Outcome Value × Unit) =>
    x.bind fun p => (next p.1).entered run s c p.2) h

theorem entered_attempt_of_none (h : run s g (.start text) () = none) :
    (attempt g text next).entered run s = fun _ => unending := by
  funext c u
  exact congrArg (fun x : Option (Outcome Value × Unit) =>
    x.bind fun p => (next p.1).entered run s c p.2) h

end

theorem entered_of_perform {run : Store → Grammar → Parser (StateT Unit Option) Value} {own : Link}
    {s' : Store} (ha : a.Renamed .builder ρ own b) (h : a.perform untried s = some (.ok g, s')) :
    a.entered run s = run s' g := by
  rw [entered_eq run ha, h]

section
variable {run : Store → Grammar → Parser (StateT Unit Option) Value}
variable (hrun : ∀ {ρ : Link} {s t : Store} {g h : Grammar},
  (∀ i j, ρ i j → Store.MeanAlike ρ s t i j) → g.Renamed ρ h → run s g = run t h)
include hrun

/-- What assemblies that are renamings of each other have made does the same. -/
theorem run_of_yielded (hst : ∀ i j, ρ i j → Store.MeanAlike ρ s t i j) (hab : a.Renamed .builder ρ .empty b)
    (hg : s.Yielded a g) (hh : t.Yielded b h) : run s g = run t h := by
  obtain ⟨tried, before, after, hleft, hkept⟩ := hg
  obtain ⟨tried', before', after', hright, hkept'⟩ := hh
  have hend := perform_alike (s := before) (t := before') tried tried' hab
  rw [hleft, hright] at hend
  cases hend with
  | @done _ _ count _ _ hgrown hgh =>
    refine hrun ?_ hgh
    rintro i j (hij | ⟨k, hk, rfl, rfl⟩)
    · exact (hst i j hij).mono Link.le_beside
    · obtain ⟨st, st', hi, hj, hst'⟩ := hgrown.made k hk
      exact .held ⟨st, st', hkept _ _ (Nat.le_add_right _ _) hi,
        hkept' _ _ (Nat.le_add_right _ _) hj, hst'⟩

omit hrun in
theorem exists_perform_of_yielded (tried' : Grammar → Parser Engine Value) (hab : a.Renamed .builder ρ .empty b)
    (hh : t.Yielded b h) (s : Store) :
    ∃ g s', a.perform tried' s = some (.ok g, s') ∧ s.KeptIn s' ∧ s'.Yielded a g := by
  obtain ⟨tried, before, after, hright, -⟩ := hh
  have hend := perform_alike (s := s) (t := before) tried' tried hab
  rw [hright] at hend
  generalize hleft : a.perform tried' s = left at hend
  cases hend with
  | @done g _ count s' _ hgrown _ =>
    exact ⟨g, s', rfl, hgrown.left_kept, tried', s, s', hleft, fun k st _ hk => hk⟩

theorem entered_of_yielded (hst : ∀ i j, ρ i j → Store.MeanAlike ρ s t i j)
    (hab : a.Renamed .builder ρ .empty b) (hh : t.Yielded b h) : a.entered run s = run t h := by
  obtain ⟨g, s', hperform, hkept, hg⟩ := exists_perform_of_yielded untried hab hh s
  rw [entered_of_perform hab hperform]
  exact run_of_yielded hrun (fun i j hij => (hst i j hij).kept hkept (.refl t)) hab hg hh

omit hrun in
/-- Linked slots mean the same also when more has been made beside them. -/
theorem meanAlike_of_grown (hst : ∀ i j, ρ i j → Store.MeanAlike ρ s t i j) {count : Nat}
    {s' t' : Store} (hgrown : Store.Grown ρ s t count s' t') :
    ∀ i j, ρ.beside s.slots.size t.slots.size count i j →
      Store.MeanAlike (ρ.beside s.slots.size t.slots.size count) s' t' i j := by
  rintro i j (hij | ⟨k, hk, rfl, rfl⟩)
  · exact ((hst i j hij).mono Link.le_beside).kept hgrown.left_kept hgrown.right_kept
  · exact .held (hgrown.made k hk)

-- By recursion on the assembly, in the middle of its work: it has made `count` slots.
theorem entered_beside (hst : ∀ i j, ρ i j → Store.MeanAlike ρ s t i j) :
    ∀ {a b : Assembly} {role : Role} {own : Link} {count : Nat} {s' t' : Store},
      a.Renamed role (ρ.beside s.slots.size t.slots.size count) own b →
      (∀ i j, own i j → ∃ k, i = s.slots.size + k ∧ j = t.slots.size + k) →
      Store.Grown ρ s t count s' t' → a.entered run s' = b.entered run t'
  | .done g, _, _, _, _, _, _, ⟨h, hb, hg⟩, _, hgrown => by
    subst hb
    exact hrun (meanAlike_of_grown hst hgrown) hg
  | .refuse e, _, _, _, _, _, _, hb, _, _ => by
    subst hb
    rfl
  | .placeholder next, _, role, own, count, s', t', ⟨next', hb, hnext⟩, hown, hgrown => by
    subst hb
    have hn := (hnext s'.slots.size t'.slots.size).mono hgrown.add_le fun _ _ h => h
    rw [entered, entered]
    refine entered_beside hst hn ?_ (hgrown.push .unfilled)
    rintro i j (hij | ⟨rfl, rfl⟩)
    · exact hown i j hij
    · exact ⟨count, hgrown.left_size, hgrown.right_size⟩
  | .define slot g next, _, role, own, count, s', t', ⟨slot', g', next', hb, hs, hg, hnext⟩, hown,
      hgrown => by
    subst hb
    obtain ⟨k, rfl, rfl⟩ := hown slot slot' hs
    rw [entered, entered]
    exact entered_beside hst hnext hown (hgrown.defined (k := k) hg)
  | .deferred name keeps build next, _, role, own, count, s', t',
      ⟨keeps', build', next', hb, hbuild, hnext⟩, hown, hgrown => by
    subst hb
    rw [entered, entered]
    refine entered_beside hst ((hnext _ _).mono hgrown.add_le fun _ _ h => h) hown ?_
    exact hgrown.push (.deferred ((hbuild _ _).mono hgrown.add_le fun _ _ h => h))
  | .attempt g text next, _, role, own, count, s', t', ⟨_, g', next', hb, hg, hnext⟩, _, hgrown => by
    subst hb
    have hnexts : ∀ o, (next o).entered run s' = (next' o).entered run t' :=
      fun o => entered_beside hst (hnext o) nofun hgrown
    simp only [entered, hrun (meanAlike_of_grown hst hgrown) hg, hnexts]
  | .publish name g next, _, role, own, count, s', t', ⟨g', next', hb, _, hnext⟩, hown, hgrown => by
    subst hb
    rw [entered, entered]
    exact entered_beside hst hnext hown (hgrown.of_slots_eq rfl rfl)

/-- Renamings of each other, the assemblies make parsers that do the same. -/
theorem entered_alike {role : Role} (hst : ∀ i j, ρ i j → Store.MeanAlike ρ s t i j)
    (hab : a.Renamed role ρ .empty b) : a.entered run s = b.entered run t := by
  have hbeside : a.Renamed role (ρ.beside s.slots.size t.slots.size 0) .empty b :=
    hab.mono Link.le_beside fun _ _ h => h
  exact entered_beside hrun hst hbeside nofun (.refl ρ s t)

end
end Assembly

namespace Grammar
variable {ρ : Link}

theorem Renamed.bare : ∀ {g h : Grammar}, g.Renamed ρ h → g.bare.Renamed ρ h
  | .holding _ g, _, h => Renamed.bare (g := g) h
  | .leaf _, _, h | .map _ _, _, h | .chain _ _, _, h | .sequence _, _, h | .choice _, _, h
  | .many _, _, h | .times _ _, _, h | .separatedBy _ _, _, h | .separatedBy1 _ _, _, h
  | .lookahead _, _, h | .optional _, _, h | .notFollowedBy _, _, h | .describe _ _, _, h
  | .mark _, _, h | .node _ _, _, h | .handle _ _, _, h => h

section
variable {run : Store → Grammar → Parser (StateT Unit Option) Value}
variable (hrun : ∀ {ρ : Link} {s t : Store} {g h : Grammar},
  (∀ i j, ρ i j → Store.MeanAlike ρ s t i j) → g.Renamed ρ h → run s g = run t h)
include hrun

theorem map_run_of_allRenamed {s t : Store} (hst : ∀ i j, ρ i j → Store.MeanAlike ρ s t i j) :
    ∀ {gs hs : List Grammar}, AllRenamed ρ gs hs → gs.map (run s) = hs.map (run t)
  | [], _, rfl => rfl
  | g :: gs, _, ⟨h, hs, rfl, hg, hgs⟩ => by
    rw [List.map_cons, List.map_cons, hrun hst hg, map_run_of_allRenamed hst hgs]

theorem anew_alike {s t : Store} (hst : ∀ i j, ρ i j → Store.MeanAlike ρ s t i j) {g h : Grammar}
    (hg : g.Renamed ρ h) : g.bare.anew run s = h.bare.anew run t := by
  have hg := hg.bare
  cases hbare : g.bare with
  | holding slots k => exact absurd hbare (bare_ne_holding g)
  | handle slot label =>
    rw [hbare] at hg
    obtain ⟨slot', hh, hslot⟩ := hg
    rw [hh]
    cases hst slot slot' hslot with
    | held hold =>
      obtain ⟨st, st', hi, hj, hst'⟩ := hold
      simp only [anew, hi, hj]
      cases hst' with
      | filled hg => exact hrun hst hg
      | deferred hbuild => exact Assembly.entered_alike hrun hst hbuild
      | unfilled | released => rfl
    | made hi hj hab hg hh =>
      simp only [anew, hi, hj]
      exact Assembly.run_of_yielded hrun hst hab hg hh
    | built hi hj hab hh =>
      simp only [anew, hi, hj]
      exact Assembly.entered_of_yielded hrun hst hab hh
  | chain k next =>
    rw [hbare] at hg
    obtain ⟨k', next', hh, hk, hnext⟩ := hg
    rw [hh]
    have hcontinued : ∀ v, (next v).entered run s = (next' v).entered run t :=
      fun v => Assembly.entered_alike hrun hst (hnext v)
    simp only [anew, hrun hst hk, hcontinued]
  | leaf l =>
    rw [hbare] at hg
    have hh : h.bare = .leaf l := hg
    rw [hh]
    rfl
  | sequence gs | choice gs =>
    rw [hbare] at hg
    obtain ⟨gs', hh, hgs⟩ := hg
    simp only [hh, anew, parser, map_run_of_allRenamed hrun hst hgs]
  | separatedBy k l | separatedBy1 k l =>
    rw [hbare] at hg
    obtain ⟨k', l', hh, hk, hl⟩ := hg
    simp only [hh, anew, parser, hrun hst hk, hrun hst hl]
  | map k | many k | times k | lookahead k | optional k | notFollowedBy k | describe k | mark k
    | node k =>
    rw [hbare] at hg
    obtain ⟨k', hh, hk⟩ := hg
    simp only [hh, anew, parser, hrun hst hk]

end

/-- Grammars that are renamings of each other mean the same, if the slots that the link connects
do. -/
theorem anewWithin_alike (n : Nat) {s t : Store} (hst : ∀ i j, ρ i j → Store.MeanAlike ρ s t i j)
    {g h : Grammar} (hg : g.Renamed ρ h) : anewWithin n s g = anewWithin n t h := by
  induction n generalizing ρ s t g h with
  | zero => rfl
  | succ n ih => exact anew_alike (fun hst hg => ih hst hg) hst hg

end Grammar
end FurthestFailure
