import FurthestFailure.Proofs.Recognition

/-! # A run that ends is derived

Whatever the depth, a run that ends leaves the store as it was, and leaves of the text what the
relation says. A loop is followed with the form that stands for what it has still to do.
-/
namespace FurthestFailure
set_option autoImplicit false

/-- If `x` ends, then with the store as it was and an outcome of which `D` holds. -/
def Sound {α : Type} (store : Store) (D : Option (List Char) → Prop) (read text : List Char)
    (x : Engine (Outcome α)) : Prop :=
  ∀ ⦃o final⦄, x store = some (o, final) → final = store ∧ ∃ r, o.Leaves read text r ∧ D r

namespace Sound
variable {α β : Type} {store : Store} {D D' : Option (List Char) → Prop} {read text : List Char}

theorem failure {t : Trail} (h : D none) : Sound (α := α) store D read text (pure (.failure t)) := by
  intro o final hx
  cases hx
  exact ⟨rfl, none, .failure, h⟩

theorem still {v : α} {a : Option Trail} (h : D (some text)) :
    Sound store D read text (pure (.success ⟨v, .after read text, a⟩)) := by
  intro o final hx
  cases hx
  exact ⟨rfl, some text, .still, h⟩

theorem success {matched rest : List Char} {v : α} {a : Option Trail} (h : D (some rest)) :
    Sound store D read (matched ++ rest)
      (pure (.success ⟨v, .after (read ++ matched) rest, a⟩)) := by
  intro o final hx
  cases hx
  exact ⟨rfl, some rest, .success, h⟩

theorem back {matched rest : List Char} {x : Engine (Outcome α)}
    (h : Sound store D (read ++ matched) rest x) (hD : ∀ r, D r → D' r) :
    Sound store D' read (matched ++ rest) x := by
  intro o final hx
  obtain ⟨hstore, r, hr, hd⟩ := h hx
  exact ⟨hstore, r, hr.back, hD r hd⟩

theorem mono {x : Engine (Outcome α)} (h : Sound store D read text x) (hD : ∀ r, D r → D' r) :
    Sound store D' read text x := by
  intro o final hx
  obtain ⟨hstore, r, hr, hd⟩ := h hx
  exact ⟨hstore, r, hr, hD r hd⟩

theorem unending : Sound (α := α) store D read text FurthestFailure.unending := by
  intro o final hx
  cases hx

theorem ite {c : Prop} [Decidable c] {x y : Engine (Outcome α)}
    (hx : c → Sound store D read text x) (hy : ¬ c → Sound store D read text y) :
    Sound store D read text (if c then x else y) := by
  by_cases hc : c
  · rw [if_pos hc]
    exact hx hc
  · rw [if_neg hc]
    exact hy hc

theorem dite {c : Prop} [Decidable c] {x : c → Engine (Outcome α)}
    (hx : ∀ hc, Sound store D read text (x hc)) :
    Sound store D read text (if hc : c then x hc else FurthestFailure.unending) := by
  by_cases hc : c
  · rw [dif_pos hc]
    exact hx hc
  · rw [dif_neg hc]
    exact unending

theorem bind {x : Engine (Outcome α)} {f : Outcome α → Engine (Outcome β)}
    (h : Sound store D read text x)
    (hsuccess : ∀ v matched rest a, matched ++ rest = text → D (some rest) →
      Sound store D' read text (f (.success ⟨v, .after (read ++ matched) rest, a⟩)))
    (hfailure : ∀ t, D none → Sound store D' read text (f (.failure t))) :
    Sound store D' read text (x >>= f) := by
  intro o final hxf
  obtain ⟨⟨o', store'⟩, hx, hf⟩ := Option.bind_eq_some_iff.mp hxf
  obtain ⟨rfl, r, hr, hd⟩ := h hx
  cases hr with
  | success => exact hsuccess _ _ _ _ rfl hd hf
  | failure => exact hfailure _ hd hf

end Sound

/-- Every run of the parser, on any text behind any other, is sound for the form. -/
def Form.SoundFor {α : Type} (store : Store) (form : Form) (p : Parser Engine α) : Prop :=
  ∀ read text, Sound store (Derives store.filled? form text) read text (p (.after read text))

namespace Form.SoundFor
variable {α : Type} {store : Store} {g h : Grammar} {gs : List Grammar}
variable {p q : Parser Engine Value}

theorem map {form form' : Form} {p : Parser Engine α} {β : Type} {f : α → β}
    (hp : form.SoundFor store p)
    (hD : ∀ {text r}, Derives store.filled? form text r → Derives store.filled? form' text r) :
    form'.SoundFor store (p.map f) := by
  intro read text
  refine (hp read text).bind ?_ ?_
  · rintro v matched rest a rfl hd
    exact Sound.success (hD hd)
  · intro t hd
    exact Sound.failure (hD hd)

theorem describe (hp : (Form.one g).SoundFor store p) (label : String) :
    (Form.one (.describe g label)).SoundFor store (p.describe label) := by
  intro read text
  refine (hp read text).bind ?_ ?_
  · rintro v matched rest a rfl hd
    exact Sound.success (.describe hd)
  · intro t hd
    exact Sound.failure (.describe hd)

theorem mark (hp : (Form.one g).SoundFor store p) : (Form.one (.mark g)).SoundFor store p.mark := by
  intro read text
  refine (hp read text).bind ?_ ?_
  · rintro v matched rest a rfl hd
    exact Sound.success (.mark hd)
  · intro t hd
    exact Sound.failure (.mark hd)

theorem lookahead (hp : (Form.one g).SoundFor store p) :
    (Form.one (.lookahead g)).SoundFor store p.lookahead := by
  intro read text
  refine (hp read text).bind ?_ ?_
  · intro v matched rest a _ hd
    exact Sound.still (.lookahead_some hd)
  · intro t hd
    exact Sound.failure (.lookahead_none hd)

theorem optional (hp : (Form.one g).SoundFor store p) :
    (Form.one (.optional g)).SoundFor store p.optional := by
  intro read text
  refine (hp read text).bind ?_ ?_
  · rintro v matched rest a rfl hd
    exact Sound.success (.optional_some hd)
  · intro t hd
    exact Sound.still (.optional_none hd)

theorem notFollowedBy (hp : (Form.one g).SoundFor store p) :
    (Form.one (.notFollowedBy g)).SoundFor store p.notFollowedBy := by
  intro read text
  refine (hp read text).bind ?_ ?_
  · intro v matched rest a _ hd
    exact Sound.failure (.notFollowedBy_some hd)
  · intro t hd
    exact Sound.still (.notFollowedBy_none hd)

/-- A loop that carries values and a trail, whatever these are. -/
def Loop (store : Store) (form : Form)
    (loop : List Value → Option Trail → Parser Engine (List Value)) : Prop :=
  ∀ values trail, form.SoundFor store (loop values trail)

theorem sequenceFrom {run : Grammar → Parser Engine Value}
    (h : ∀ g ∈ gs, (Form.one g).SoundFor store (run g)) :
    Loop store (.all gs) (Parser.sequenceFrom (gs.map run)) := by
  induction gs with
  | nil =>
    intro values trail read text
    exact Sound.still .all_nil
  | cons g gs ih =>
    obtain ⟨hg, hgs⟩ := List.forall_mem_cons.mp h
    intro values trail read text
    refine (hg read text).bind ?_ ?_
    · rintro v matched rest a rfl hd
      exact (ih hgs _ _ _ rest).back fun r hr => .all_next hd hr
    · intro t hd
      exact Sound.failure (.all_fail hd)

theorem choiceFrom {run : Grammar → Parser Engine Value}
    (h : ∀ g ∈ gs, (Form.one g).SoundFor store (run g)) (trail : Option Trail) :
    (Form.first gs).SoundFor store (Parser.choiceFrom (gs.map run) trail) := by
  induction gs generalizing trail with
  | nil =>
    intro read text
    cases trail <;> exact Sound.failure .first_nil
  | cons g gs ih =>
    obtain ⟨hg, hgs⟩ := List.forall_mem_cons.mp h
    intro read text
    refine (hg read text).bind ?_ ?_
    · rintro v matched rest a rfl hd
      exact Sound.success (.first_here hd)
    · intro t hd
      exact (ih hgs _ read text).mono fun r hr => .first_next hd hr

theorem timesFrom {run : Grammar → Parser Engine Value} (h : (Form.one g).SoundFor store (run g))
    (count : Nat) : Loop store (.all (List.replicate count g)) ((run g).timesFrom count) := by
  rw [Parser.timesFrom_eq_sequenceFrom, ← List.map_replicate]
  refine sequenceFrom fun g' hg' => ?_
  rw [List.eq_of_mem_replicate hg']
  exact h

theorem manyFrom (hp : (Form.one g).SoundFor store p) (rounds : Nat) :
    Loop store (.repeated g) (p.manyFrom rounds) := by
  intro values trail read text
  generalize hc : Cursor.after read text = c
  induction rounds, c using Parser.rounds_induction generalizing values trail read text with
  | round rounds c ih =>
    subst hc
    rw [Parser.manyFrom]
    refine (hp read text).bind ?_ ?_
    · rintro v matched rest a rfl hd
      refine Sound.ite ?_ ?_
      · intro hi
        obtain rfl := Cursor.index_after_eq_iff.mp hi
        exact Sound.still (.repeated_still hd)
      · intro hi
        refine Sound.dite fun hl => ?_
        have hm : matched ≠ [] := mt Cursor.index_after_eq_iff.mpr hi
        have hne : rest ≠ matched ++ rest := by simpa using hm
        exact (ih _ hl _ _ _ rest rfl).back fun r hr => .repeated_next hd hne hr
    · intro t hd
      exact Sound.still (.repeated_fail hd)

theorem separatedFrom (hp : (Form.one g).SoundFor store p) (hq : (Form.one h).SoundFor store q)
    (rounds : Nat) : Loop store (.further g h) (Parser.separatedFrom p q rounds) := by
  intro values trail read text
  generalize hc : Cursor.after read text = c
  induction rounds, c using Parser.rounds_induction generalizing values trail read text with
  | round rounds c ih =>
    subst hc
    rw [Parser.separatedFrom]
    refine (hq read text).bind ?_ ?_
    · rintro _ matched rest _ rfl hd
      refine Sound.back (D := Derives store.filled? (.further g h) (matched ++ rest)) ?_
        fun r hr => hr
      refine (hp _ rest).bind ?_ ?_
      · rintro v matched' rest' a rfl hd'
        refine Sound.dite fun hl => ?_
        exact (ih _ hl _ _ _ rest' rfl).back fun r hr => .further_next hd hd' hr
      · intro t hd'
        exact Sound.failure (.further_fail hd hd')
    · intro t hd
      exact Sound.still (.further_end hd)

theorem separatedBy (hp : (Form.one g).SoundFor store p) (hq : (Form.one h).SoundFor store q) :
    (Form.one (.separatedBy g h)).SoundFor store (p.separatedBy q) := by
  intro read text
  refine (hp read text).bind ?_ ?_
  · rintro v matched rest a rfl hd
    exact (separatedFrom hp hq _ _ _ _ rest).back fun r hr => .separatedBy_some hd hr
  · intro t hd
    exact Sound.still (.separatedBy_none hd)

theorem separatedBy1 (hp : (Form.one g).SoundFor store p) (hq : (Form.one h).SoundFor store q) :
    (Form.one (.separatedBy1 g h)).SoundFor store (p.separatedBy1 q) := by
  intro read text
  refine (hp read text).bind ?_ ?_
  · rintro v matched rest a rfl hd
    exact (separatedFrom hp hq _ _ _ _ rest).back fun r hr => .separatedBy1_some hd hr
  · intro t hd
    exact Sound.failure (.separatedBy1_none hd)

theorem node (hp : (Form.one g).SoundFor store p) (name : String) :
    (Form.one (.node g name)).SoundFor store (p.node name) := by
  refine hp.mark.map ?_
  intro text r h
  cases h with
  | mark h => exact .node h

theorem handle {slot : Nat} {label : String} {run : Grammar → Parser Engine Value}
    {enter : Engine (Option Grammar)} (henter : enter store = some (store.filled? slot, store))
    (hrun : ∀ g, store.filled? slot = some g → (Form.one g).SoundFor store (run g)) :
    (Form.one (.handle slot label)).SoundFor store fun c => do
      match ← enter with
      | some g => run g c
      | none => return c.fail label := by
  intro read text o final hx
  obtain ⟨⟨found, store'⟩, hentered, hx⟩ := Option.bind_eq_some_iff.mp hx
  rw [henter] at hentered
  cases hentered
  rcases hrule : store.filled? slot with _ | g
  · rw [hrule] at hx
    exact Sound.failure (.handle_empty hrule) hx
  · rw [hrule] at hx
    exact (hrun g hrule read text).mono (fun r hr => .handle_filled hrule hr) hx

theorem leaf {l : Leaf} (hl : l.IsLibrary) :
    (Form.one (.leaf l)).SoundFor store fun c => pure (l.run c) := by
  intro read text
  simp only [Leaf.run_eq hl]
  have htakes : ∀ matched rest, l.Takes matched rest ↔
      ∃ v, l.reading? (Cursor.after read text).position (matched ++ rest) = some (matched, v) :=
    fun matched rest => Leaf.takes_iff hl _
  rcases hr : l.reading? (Cursor.after read text).position text with _ | ⟨matched, v⟩
  · simp only [Cursor.after_rest, hr]
    refine Sound.failure (.leaf_misses ?_)
    rintro matched rest rfl ht
    obtain ⟨v, hv⟩ := (htakes matched rest).mp ht
    rw [hr] at hv
    cases hv
  · obtain ⟨rest, rfl⟩ := Leaf.reading?_prefix hl hr
    simp only [Cursor.after_rest, hr, Leaf.outcomeOf, Cursor.accept, Cursor.advance_after]
    exact Sound.success (.leaf_takes ((htakes matched rest).mpr ⟨v, hr⟩))

end Form.SoundFor

namespace Grammar
variable {store : Store}

theorem runWithin_sound (hs : store.Everywhere IsRecogniser) (hbuilt : store.IsBuilt) {g : Grammar}
    (hg : g.Everywhere IsRecogniser) (depth : Nat) :
    (Form.one g).SoundFor store (g.runWithin depth) := by
  induction depth generalizing g with
  | zero => exact fun _ _ => Sound.unending
  | succ depth ih =>
    have hall : ∀ {gs : List Grammar}, AllEverywhere IsRecogniser gs →
        ∀ g ∈ gs, (Form.one g).SoundFor store (runWithin depth g) :=
      fun h g hg => ih (allEverywhere_iff.mp h g hg)
    rw [runWithin]
    cases g with
    | leaf l => exact Form.SoundFor.leaf hg
    | map g f => exact (ih hg.2).map .map
    | chain g next => exact hg.1.elim
    | sequence gs => exact (Form.SoundFor.sequenceFrom (hall hg.2) [] none).map .sequence
    | choice gs =>
      intro read text
      exact (Form.SoundFor.choiceFrom (hall hg.2) none read text).mono fun r hr => .choice hr
    | many g => exact ((ih hg.2).manyFrom _ [] none).map .many
    | times g count => exact ((ih hg.2).timesFrom count [] none).map .times
    | separatedBy g h => exact ((ih hg.2.1).separatedBy (ih hg.2.2)).map id
    | separatedBy1 g h => exact ((ih hg.2.1).separatedBy1 (ih hg.2.2)).map id
    | lookahead g => exact (ih hg.2).lookahead
    | optional g => exact (ih hg.2).optional.map id
    | notFollowedBy g => exact (ih hg.2).notFollowedBy.map id
    | describe g label => exact (ih hg.2).describe label
    | mark g => exact (ih hg.2).mark.map id
    | node g name => exact ((ih hg.2).node name).map id
    | handle slot label =>
      refine Form.SoundFor.handle (Store.enter_of_not_deferred (hbuilt slot)) ?_
      intro g hrule
      exact ih (hs.filled hrule)
    | holding slots g =>
      intro read text
      exact (ih hg.2 read text).mono fun r hr => .holding hr

end Grammar
end FurthestFailure
