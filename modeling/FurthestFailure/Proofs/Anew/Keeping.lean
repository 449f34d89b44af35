import FurthestFailure.Proofs.Anew

/-! # Stores that keep meanings

A store is scoped when nothing in it refers to a slot that is not there. Carrying an assembly out in a
scoped store adds slots to it, and entering a slot may fill it with what the slot has put off. Neither
changes the meaning of anything that is made in the store before or after.
-/
namespace FurthestFailure
set_option autoImplicit false

namespace Grammar
variable {ρ : Link}

theorem Renamed.of_bare_eq : ∀ {g h h' : Grammar}, h.bare = h'.bare → g.Renamed ρ h → g.Renamed ρ h'
  | .holding _ g, _, _, hb, hg => Renamed.of_bare_eq (g := g) hb hg
  | .leaf _, _, _, hb, hg => hb.symm.trans hg
  | .map _ _, _, _, hb, ⟨_, h, hg⟩ | .many _, _, _, hb, ⟨_, h, hg⟩ | .times _ _, _, _, hb, ⟨_, h, hg⟩
  | .lookahead _, _, _, hb, ⟨_, h, hg⟩ | .optional _, _, _, hb, ⟨_, h, hg⟩
  | .notFollowedBy _, _, _, hb, ⟨_, h, hg⟩ | .describe _ _, _, _, hb, ⟨_, h, hg⟩
  | .mark _, _, _, hb, ⟨_, h, hg⟩ | .node _ _, _, _, hb, ⟨_, h, hg⟩
  | .sequence _, _, _, hb, ⟨_, h, hg⟩ | .choice _, _, _, hb, ⟨_, h, hg⟩
  | .handle _ _, _, _, hb, ⟨_, h, hg⟩ => ⟨_, hb.symm.trans h, hg⟩
  | .chain _ _, _, _, hb, ⟨_, _, h, hg⟩ | .separatedBy _ _, _, _, hb, ⟨_, _, h, hg⟩
  | .separatedBy1 _ _, _, _, hb, ⟨_, _, h, hg⟩ => ⟨_, _, hb.symm.trans h, hg⟩

theorem AllRenamed.of_mem : ∀ {gs : List Grammar}, AllRenamed ρ gs gs → ∀ g ∈ gs, g.Renamed ρ g
  | [], _, _, hmem => by cases hmem
  | _ :: _, ⟨_, _, heq, hg, hgs⟩, g, hmem => by
    obtain ⟨rfl, rfl⟩ := List.cons.inj heq
    rcases List.mem_cons.mp hmem with rfl | hmem
    · exact hg
    · exact AllRenamed.of_mem hgs g hmem

theorem Renamed.part {g p : Grammar} (h : g.Renamed ρ g) (hp : p ∈ g.parts) : p.Renamed ρ p := by
  cases g with
  | leaf | handle => cases hp
  | chain g next =>
    obtain rfl := List.mem_singleton.mp hp
    obtain ⟨_, _, heq, hg, -⟩ := h
    obtain ⟨rfl, rfl⟩ := Grammar.chain.inj heq
    exact hg
  | sequence gs =>
    obtain ⟨_, heq, hgs⟩ := h
    obtain rfl := Grammar.sequence.inj heq
    exact hgs.of_mem p hp
  | choice gs =>
    obtain ⟨_, heq, hgs⟩ := h
    obtain rfl := Grammar.choice.inj heq
    exact hgs.of_mem p hp
  | separatedBy g k | separatedBy1 g k =>
    obtain ⟨_, _, heq, hg, hk⟩ := h
    cases heq
    obtain rfl | rfl : p = g ∨ p = k := by simpa [parts] using hp
    · exact hg
    · exact hk
  | holding slots g =>
    obtain rfl := List.mem_singleton.mp hp
    exact Renamed.of_bare_eq (h := .holding slots p) rfl h
  | map | many | times | lookahead | optional | notFollowedBy | describe | mark | node =>
    obtain rfl := List.mem_singleton.mp hp
    obtain ⟨_, heq, hg⟩ := h
    cases heq
    exact hg

end Grammar

theorem Assembly.exists_performed_of_entered (run : Grammar → Parser Engine Value) {a b : Assembly}
    {ρ own : Link} (ha : a.Renamed .builder ρ own b)
    {enter : Store → Grammar → Parser (StateT Unit Option) Value} {s : Store} {c : Cursor}
    {r : Outcome Value × Unit} (h : a.entered enter s c () = some r) :
    ∃ g t, a.performed run s = some (g, t) := by
  rw [entered_eq enter ha, perform_eq untried run ha] at h
  split at h
  · next g t hperform => exact ⟨g, t, performed_eq_some_iff.mpr hperform⟩
  · cases h

theorem Assembly.exists_perform (run : Grammar → Parser Engine Value) {a b : Assembly} {ρ : Link}
    (ha : a.Renamed .builder ρ .empty b) (s : Store) : ∃ result t, a.perform run s = some (result, t) := by
  have hend := perform_alike (s := s) (t := s) run run ha
  generalize a.perform run s = left, b.perform run s = right at hend
  cases hend with
  | refused => exact ⟨_, _, rfl⟩
  | done => exact ⟨_, _, rfl⟩

theorem Assembly.perform_ok_iff {a b : Assembly} {ρ : Link} (hab : a.Renamed .builder ρ .empty b)
    (run run' : Grammar → Parser Engine Value) (s t : Store) :
    (∃ g s', a.perform run s = some (.ok g, s')) ↔ ∃ h t', b.perform run' t = some (.ok h, t') := by
  have hend := perform_alike (s := s) (t := t) run run' hab
  generalize a.perform run s = left, b.perform run' t = right at hend
  cases hend with
  | refused => simp
  | done => simp

theorem Assembly.perform_kept {run : Grammar → Parser Engine Value} {a b : Assembly} {ρ : Link}
    (ha : a.Renamed .builder ρ .empty b) {s t : Store} {g : Grammar}
    (h : a.perform run s = some (.ok g, t)) : s.KeptIn t := by
  have hend := perform_alike (s := s) (t := s) run run ha
  rw [h] at hend
  generalize b.perform run s = right at hend
  cases hend with
  | done hgrown => exact hgrown.left_kept

namespace Store
variable {s t : Store} {run : Grammar → Parser Engine Value} {a : Assembly} {g : Grammar}

/-- The grammar refers to no slot that is not in the store. -/
abbrev Scopes (s : Store) (g : Grammar) : Prop := g.Renamed (.below s.slots.size) g

/-- The assembly refers to no slot that is not in the store, and does no more than its role allows. -/
abbrev Admits (s : Store) (role : Assembly.Role) (a : Assembly) : Prop :=
  a.Renamed role (.below s.slots.size) .empty a

def Scoped (s : Store) : Prop :=
  ∀ i, i < s.slots.size → HoldAlike (.below s.slots.size) s s i i

theorem below_mono {m n : Nat} (h : m ≤ n) : ∀ i j, Link.below m i j → Link.below n i j :=
  fun _ _ hij => ⟨hij.1, Nat.lt_of_lt_of_le hij.2 h⟩

theorem Scopes.mono (h : s.Scopes g) (hst : s.slots.size ≤ t.slots.size) : t.Scopes g :=
  Grammar.Renamed.mono (below_mono hst) h

theorem Admits.mono {role : Assembly.Role} (h : s.Admits role a)
    (hst : s.slots.size ≤ t.slots.size) : t.Admits role a :=
  Assembly.Renamed.mono (below_mono hst) (fun _ _ h => h) h

theorem scoped_empty : Scoped {} := nofun

theorem Scoped.filled (hs : s.Scoped) {i : Nat} (h : s.stateAt i = some (.filled g)) :
    s.Scopes g := by
  obtain ⟨st, st', hi, hj, hst⟩ := hs i (lt_size_of_stateAt h)
  rw [h] at hi hj
  cases hi
  cases hj
  cases hst with
  | filled hg => exact hg

theorem Scoped.deferred (hs : s.Scoped) {i : Nat} (h : s.stateAt i = some (.deferred a)) :
    s.Admits .builder a := by
  obtain ⟨st, st', hi, hj, hst⟩ := hs i (lt_size_of_stateAt h)
  rw [h] at hi hj
  cases hi
  cases hj
  cases hst with
  | deferred ha => exact ha

theorem Scoped.of_stateAt_eq (hs : s.Scoped) (h : ∀ i, t.stateAt i = s.stateAt i) : t.Scoped := by
  have hst : s.KeptIn t := fun i st hi => (h i).trans hi
  have hts : t.KeptIn s := fun i st hi => (h i).symm.trans hi
  have hsize : t.slots.size = s.slots.size := Nat.le_antisymm hts.size_le hst.size_le
  intro i hi
  rw [hsize]
  exact (hs i (hsize ▸ hi)).kept hst hst

/-- Carried out in a scoped store, a builder that the store admits leaves a scoped one, and all that
was there. -/
theorem Scoped.perform (hs : s.Scoped) (ha : s.Admits .builder a)
    (h : a.perform run s = some (.ok g, t)) : t.Scoped ∧ t.Scopes g ∧ s.KeptIn t := by
  have hend := Assembly.perform_alike (s := s) (t := s) run run ha
  rw [h] at hend
  cases hend with
  | @done _ _ count _ _ hgrown hg =>
    have hbelow : ∀ i j, (Link.below s.slots.size).beside s.slots.size s.slots.size count i j →
        Link.below t.slots.size i j := by
      rw [hgrown.left_size]
      rintro i j (⟨rfl, hi⟩ | ⟨k, hk, rfl, rfl⟩)
      · exact ⟨rfl, by omega⟩
      · exact ⟨rfl, by omega⟩
    refine ⟨?_, hg.mono hbelow, hgrown.left_kept⟩
    intro i hi
    rw [hgrown.left_size] at hi
    by_cases hold : i < s.slots.size
    · have halike := (hs i hold).mono (below_mono hgrown.left_kept.size_le)
      exact halike.kept hgrown.left_kept hgrown.left_kept
    · obtain ⟨k, rfl⟩ : ∃ k, i = s.slots.size + k := ⟨i - s.slots.size, by omega⟩
      exact (hgrown.made k (by omega)).mono hbelow

theorem Scoped.defined (hs : s.Scoped) (slot : Nat) (hg : s.Scopes g) : (s.defined slot g).Scoped := by
  intro i hi
  rw [size_defined] at hi ⊢
  obtain ⟨st, st', h, h', hst⟩ := hs i hi
  by_cases hslot : i = slot
  · subst hslot
    refine ⟨st.given g, st'.given g, ?_, ?_, hst.given hg⟩
    · rw [stateAt_defined, if_pos rfl, h, Option.map_some]
    · rw [stateAt_defined, if_pos rfl, h', Option.map_some]
  · refine ⟨st, st', ?_, ?_, hst⟩
    · rw [stateAt_defined, if_neg hslot, h]
    · rw [stateAt_defined, if_neg hslot, h']

theorem below_add (n : Nat) : ∀ i j, (Link.below n).add n n i j → Link.below (n + 1) i j := by
  rintro i j (⟨rfl, hi⟩ | ⟨rfl, rfl⟩)
  · exact ⟨rfl, Nat.lt_succ_of_lt hi⟩
  · exact ⟨rfl, Nat.lt_succ_self _⟩

theorem Scoped.push (hs : s.Scoped) {slot : Slot}
    (hslot : slot.state.Renamed (.below (s.slots.size + 1)) slot.state) :
    Scoped { s with slots := s.slots.push slot } := by
  intro i hi
  simp only [Array.size_push] at hi ⊢
  rcases Nat.lt_or_eq_of_le (Nat.le_of_lt_succ hi) with hlt | rfl
  · have hkept := (KeptIn.refl s).push slot
    exact ((hs i hlt).mono (below_mono (Nat.le_succ _))).kept hkept hkept
  · exact ⟨_, _, by rw [stateAt_push, if_pos rfl], by rw [stateAt_push, if_pos rfl], hslot⟩

/-- The second store is scoped, and all that the first admits means the same in the second. -/
structure Keeps (s t : Store) : Prop where
  size_le : s.slots.size ≤ t.slots.size
  isScoped : t.Scoped
  entered : ∀ ⦃a⦄, s.Admits .continuation a → ∀ n,
    a.entered (Grammar.anewWithin n) t = a.entered (Grammar.anewWithin n) s

namespace Keeps

theorem refl (hs : s.Scoped) : s.Keeps s where
  size_le := Nat.le_refl _
  isScoped := hs
  entered _ _ _ := rfl

theorem trans {u : Store} (h : s.Keeps t) (h' : t.Keeps u) : s.Keeps u where
  size_le := Nat.le_trans h.size_le h'.size_le
  isScoped := h'.isScoped
  entered a ha n := by rw [h'.entered (ha.mono h.size_le), h.entered ha]

theorem of_meanAlike (ht : t.Scoped) (hsize : s.slots.size ≤ t.slots.size)
    (h : ∀ i, i < s.slots.size → MeanAlike (.below s.slots.size) s t i i) : s.Keeps t where
  size_le := hsize
  isScoped := ht
  entered a ha n := by
    refine (Assembly.entered_alike (fun h hg => Grammar.anewWithin_alike n h hg) ?_ ha).symm
    rintro i _ ⟨rfl, hi⟩
    exact h i hi

theorem of_kept (hs : s.Scoped) (ht : t.Scoped) (h : s.KeptIn t) : s.Keeps t :=
  of_meanAlike ht h.size_le fun i hi => .held ((hs i hi).kept (.refl s) h)

theorem anewWithin (h : s.Keeps t) (hg : s.Scopes g) (n : Nat) :
    g.anewWithin n t = g.anewWithin n s := by
  have hdone : s.Admits .continuation (.done g) := ⟨g, rfl, hg⟩
  exact h.entered hdone n

end Keeps

/-- To fill a slot with what it has put off changes no meaning. -/
theorem Scoped.keeps_built (hs : s.Scoped) {slot : Nat}
    (hslot : s.stateAt slot = some (.deferred a)) (h : a.perform run s = some (.ok g, t)) :
    s.Keeps (t.defined slot g) ∧ (t.defined slot g).Yielded a g ∧
      (t.defined slot g).stateAt slot = some (.filled g) := by
  obtain ⟨ht, hg, hst⟩ := hs.perform (hs.deferred hslot) h
  have hdefined : ∀ i, (t.defined slot g).stateAt i =
      if i = slot then some (.filled g) else t.stateAt i := by
    intro i
    rw [stateAt_defined, hst hslot]
    rfl
  have hscoped := ht.defined slot hg
  have hyielded : (t.defined slot g).Yielded a g := by
    refine ⟨run, s, t, h, fun k st hle hk => ?_⟩
    have hlt := lt_size_of_stateAt hslot
    rw [hdefined, if_neg (by omega), hk]
  have hkeeps : t.Keeps (t.defined slot g) := by
    refine .of_meanAlike hscoped (Nat.le_of_eq (size_defined g).symm) fun i hi => ?_
    by_cases hne : i = slot
    · subst hne
      refine .built (hst hslot) ((hdefined i).trans (if_pos rfl)) ?_ hyielded
      exact (hs.deferred hslot).mono hst.size_le
    · obtain ⟨st, st', h, h', halike⟩ := ht i hi
      refine .held ⟨st, st', h, ?_, halike⟩
      rw [hdefined, if_neg hne, h']
  exact ⟨(Keeps.of_kept hs ht hst).trans hkeeps, hyielded, (hdefined slot).trans (if_pos rfl)⟩

theorem Scoped.meanAlike (hs : s.Scoped) :
    ∀ i j, Link.below s.slots.size i j → MeanAlike (.below s.slots.size) s s i j := by
  rintro i _ ⟨rfl, hi⟩
  exact .held (hs i hi)

theorem Scoped.counted (hs : s.Scoped) (slot : Nat) : s.Keeps (s.counted slot) := by
  have hstate := @stateAt_counted s slot
  exact .of_kept hs (hs.of_stateAt_eq hstate) fun i st hi => (hstate i).trans hi

/-- What is found in a slot means what the slot means, and entering changes no meaning. -/
theorem Scoped.entering (hs : s.Scoped) {slot : Nat} {found : Option Grammar}
    (h : enter run slot s = some (found, t)) :
    s.Keeps t ∧ (∀ g, found = some g → t.Scopes g) ∧
      ∀ n label, (Grammar.handle slot label).anewWithin (n + 1) s =
        found.elim (fun c => pure (c.fail label)) fun g => g.anewWithin n t := by
  by_cases hdeferred : ∃ build, s.stateAt slot = some (.deferred build)
  · obtain ⟨build, hslot⟩ := hdeferred
    have hcounted := hs.counted slot
    have hslot' : (s.counted slot).stateAt slot = some (.deferred build) := by
      rw [stateAt_counted, hslot]
    obtain ⟨g, s', hperformed⟩ := exists_performed_of_enter hslot h
    obtain ⟨hkeeps, hyielded, hfilled⟩ := hcounted.isScoped.keeps_built hslot'
      (Assembly.performed_eq_some_iff.mp hperformed)
    rw [enter_of_performed hslot hperformed, filled?_eq_some_iff.mpr hfilled] at h
    cases h
    have hst := hcounted.trans hkeeps
    refine ⟨hst, fun g' hg' => ?_, fun n label => ?_⟩
    · cases hg'
      exact hst.isScoped.filled hfilled
    · have hbuild := hs.deferred hslot
      have hmeaning : (Grammar.handle slot label).anewWithin (n + 1) s =
          build.entered (Grammar.anewWithin n) s := by
        simp only [Grammar.anewWithin, Grammar.bare, Grammar.anew, hslot]
      rw [hmeaning, ← hst.entered hbuild.continuation]
      exact Assembly.entered_of_yielded (fun h hg => Grammar.anewWithin_alike n h hg)
        hst.isScoped.meanAlike (hbuild.mono hst.size_le) hyielded
  · have hnot : ∀ build, s.stateAt slot ≠ some (.deferred build) :=
      fun build hb => hdeferred ⟨build, hb⟩
    rw [enter_of_not_deferred hnot] at h
    cases h
    refine ⟨.refl hs, fun g hg => hs.filled (filled?_eq_some_iff.mp hg), fun n label => ?_⟩
    rcases hslot : s.stateAt slot with _ | _ | build | g | _
    · simp only [Grammar.anewWithin, Grammar.bare, Grammar.anew, filled?, hslot, Option.elim]
    · simp only [Grammar.anewWithin, Grammar.bare, Grammar.anew, filled?, hslot, Option.elim]
    · exact absurd hslot (hnot build)
    · simp only [Grammar.anewWithin, Grammar.bare, Grammar.anew, filled?, hslot, Option.elim]
    · simp only [Grammar.anewWithin, Grammar.bare, Grammar.anew, filled?, hslot, Option.elim]

/-- A slot that means something at the cursor can be entered. -/
theorem Scoped.exists_enter (hs : s.Scoped) (run : Grammar → Parser Engine Value) {slot n : Nat}
    {label : String} {c : Cursor} {r : Outcome Value × Unit}
    (h : (Grammar.handle slot label).anewWithin (n + 1) s c () = some r) :
    ∃ found t, enter run slot s = some (found, t) := by
  by_cases hdeferred : ∃ build, s.stateAt slot = some (.deferred build)
  · obtain ⟨build, hslot⟩ := hdeferred
    have hbuild := hs.deferred hslot
    have hentered : build.entered (Grammar.anewWithin n) (s.counted slot) c () = some r := by
      rw [(hs.counted slot).entered hbuild.continuation]
      simpa only [Grammar.anewWithin, Grammar.bare, Grammar.anew, hslot] using h
    obtain ⟨g, t, hperformed⟩ := Assembly.exists_performed_of_entered run hbuild hentered
    exact ⟨_, _, enter_of_performed hslot hperformed⟩
  · exact ⟨_, _, enter_of_not_deferred fun build hb => hdeferred ⟨build, hb⟩⟩

end Store

namespace Assembly
variable {s t : Store} {own : Link} {a next : Assembly}

/-- Of a continuation, `a` remains to be done in the store `t`. It has tried nothing since the store was
`s`, and may fill the slots `own` that it has made since. -/
structure Midway (s t : Store) (own : Link) (a : Assembly) : Prop where
  before : s.Scoped
  now : t.Scoped
  kept : s.KeptIn t
  admitted : a.Renamed .continuation (.below t.slots.size) own a
  fresh : ∀ i j, own i j → s.slots.size ≤ i

namespace Midway

theorem start (hs : s.Scoped) (ha : s.Admits .continuation a) : Midway s s .empty a where
  before := hs
  now := hs
  kept := .refl s
  admitted := ha
  fresh := nofun

theorem keeps (h : Midway s t own a) : s.Keeps t := .of_kept h.before h.now h.kept

theorem done {g : Grammar} (h : Midway s t own (.done g)) : t.Scopes g := by
  obtain ⟨_, heq, hg⟩ := h.admitted
  cases heq
  exact hg

theorem placeholder {next : Nat → Assembly} (h : Midway s t own (.placeholder next)) :
    Midway s { t with slots := t.slots.push { state := .unfilled } }
      (own.add t.slots.size t.slots.size) (next t.slots.size) where
  before := h.before
  now := h.now.push .unfilled
  kept := h.kept.push _
  admitted := by
    obtain ⟨_, heq, hnext⟩ := h.admitted
    cases heq
    rw [Array.size_push]
    exact (hnext _ _).mono (Store.below_add _) fun _ _ h => h
  fresh := by
    rintro i j (hij | ⟨rfl, -⟩)
    · exact h.fresh i j hij
    · exact h.kept.size_le

theorem define {slot : Nat} {g : Grammar} (h : Midway s t own (.define slot g next)) :
    Midway s (t.defined slot g) own next := by
  obtain ⟨_, _, _, heq, hown, hg, hnext⟩ := h.admitted
  cases heq
  exact {
    before := h.before
    now := h.now.defined slot hg
    kept := h.kept.defined (h.fresh _ _ hown) g
    admitted := by
      rw [Store.size_defined]
      exact hnext
    fresh := h.fresh }

theorem deferred {name : String} {keeps : List Nat} {build next : Nat → Assembly}
    (h : Midway s t own (.deferred name keeps build next)) :
    Midway s
      { t with slots := t.slots.push
                { state := .deferred (build t.slots.size), name := some name
                  keeps := t.slots.size :: keeps } }
      own (next t.slots.size) := by
  obtain ⟨_, _, _, heq, hbuild, hnext⟩ := h.admitted
  cases heq
  exact {
    before := h.before
    now := h.now.push (.deferred ((hbuild _ _).mono (Store.below_add _) fun _ _ h => h))
    kept := h.kept.push _
    admitted := by
      rw [Array.size_push]
      exact (hnext _ _).mono (Store.below_add _) fun _ _ h => h
    fresh := h.fresh }

theorem attempt {g : Grammar} {text : List Char} {next : Outcome Value → Assembly}
    (h : Midway s t own (.attempt g text next)) :
    t.Scopes g ∧ ∀ o, t.Admits .continuation (next o) := by
  obtain ⟨-, _, _, heq, hg, hnext⟩ := h.admitted
  cases heq
  exact ⟨hg, hnext⟩

theorem publish {name : String} {g : Grammar} (h : Midway s t own (.publish name g next)) :
    Midway s { t with published := (name, g) :: t.published } own next where
  before := h.before
  now := h.now.of_stateAt_eq fun _ => rfl
  kept := h.kept
  admitted := by
    obtain ⟨_, _, heq, -, hnext⟩ := h.admitted
    cases heq
    exact hnext
  fresh := h.fresh

end Midway
end Assembly
end FurthestFailure
