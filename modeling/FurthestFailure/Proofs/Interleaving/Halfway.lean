import FurthestFailure.Proofs.Interleaving.Views

/-! # Assemblies halfway

An assembly need not be carried out in one go: others may work on the store between any two of its
steps, and so the slots that it makes need not follow on each other. Still it makes what it would have
made in one go, in any store, but for the numbers of the slots. So when it is done, what it has made
means what the assembly means, and to fill a slot that has put the assembly off keeps all meanings.
-/
namespace FurthestFailure
set_option autoImplicit false

open Set

namespace Link
variable {U V : Set Nat} {made : Link} {i j : Nat}

theorem onWith_add : ∀ i' j', (onWith U made).add i j i' j' → onWith U (made.add i j) i' j' := by
  rintro i' j' ((h | h) | h)
  · exact .inl h
  · exact .inr (.inl h)
  · exact .inr (.inr h)

theorem on_insert : (on U).add i i = on (insert i U) := by
  funext i' j'
  refine propext ⟨?_, ?_⟩
  · rintro (⟨rfl, h⟩ | ⟨rfl, rfl⟩)
    · exact ⟨rfl, mem_insert_of_mem i h⟩
    · exact ⟨rfl, mem_insert _ U⟩
  · rintro ⟨rfl, rfl | h⟩
    · exact .inr ⟨rfl, rfl⟩
    · exact .inl ⟨rfl, h⟩

theorem onWith_on : onWith U (on V) = on (U ∪ V) := by
  funext i j
  refine propext ⟨?_, ?_⟩
  · rintro (⟨rfl, h⟩ | ⟨rfl, h⟩)
    · exact ⟨rfl, .inl h⟩
    · exact ⟨rfl, .inr h⟩
  · rintro ⟨rfl, h | h⟩
    · exact .inl ⟨rfl, h⟩
    · exact .inr ⟨rfl, h⟩

end Link

namespace Store
variable {U : Set Nat} {made : Link} {t u : Store}

/-- The slots that were made on the one side stand one to one for those that were made on the other,
and hold alike. -/
structure MadeAlike (U : Set Nat) (made : Link) (t u : Store) : Prop where
  injective : ∀ ⦃i j i' j'⦄, made i j → made i' j' → (i = i' ↔ j = j')
  held : ∀ ⦃i j⦄, made i j → HoldAlike (.onWith U made) t u i j

namespace MadeAlike

theorem push (h : MadeAlike U made t u) {a b : Slot}
    (hab : a.state.Renamed (.onWith U (made.add t.slots.size u.slots.size)) b.state) :
    MadeAlike U (made.add t.slots.size u.slots.size) { t with slots := t.slots.push a }
      { u with slots := u.slots.push b } where
  injective := by
    have hlt : ∀ {i j}, made i j → i < t.slots.size ∧ j < u.slots.size := by
      intro i j hij
      obtain ⟨_, _, hi, hj, -⟩ := h.held hij
      exact ⟨lt_size_of_stateAt hi, lt_size_of_stateAt hj⟩
    rintro i j i' j' (hij | ⟨rfl, rfl⟩) (hij' | ⟨rfl, rfl⟩)
    · exact h.injective hij hij'
    · have := hlt hij
      omega
    · have := hlt hij'
      omega
    · simp
  held := by
    rintro i j (hij | ⟨rfl, rfl⟩)
    · obtain ⟨st, st', hi, hj, hst⟩ := h.held hij
      have hlt := lt_size_of_stateAt hi
      have hlt' := lt_size_of_stateAt hj
      refine ⟨st, st', ?_, ?_, hst.mono (Link.onWith_mono Subset.rfl fun _ _ h => .inl h)⟩
      · rw [stateAt_push, if_neg (by omega), hi]
      · rw [stateAt_push, if_neg (by omega), hj]
    · refine ⟨a.state, b.state, ?_, ?_, hab⟩
      · rw [stateAt_push, if_pos rfl]
      · rw [stateAt_push, if_pos rfl]

theorem defined (h : MadeAlike U made t u) {i j : Nat} (hij : made i j) {g g' : Grammar}
    (hg : g.Renamed (.onWith U made) g') : MadeAlike U made (t.defined i g) (u.defined j g') where
  injective := h.injective
  held := by
    intro i' j' hij'
    obtain ⟨st, st', hi, hj, hst⟩ := h.held hij'
    by_cases hsame : i' = i
    · obtain rfl : j' = j := (h.injective hij' hij).mp hsame
      subst hsame
      refine ⟨st.given g, st'.given g', ?_, ?_, hst.given hg⟩
      · rw [stateAt_defined, if_pos rfl, hi, Option.map_some]
      · rw [stateAt_defined, if_pos rfl, hj, Option.map_some]
    · have hsame' : j' ≠ j := fun heq => hsame ((h.injective hij' hij).mpr heq)
      refine ⟨st, st', ?_, ?_, hst⟩
      · rw [stateAt_defined, if_neg hsame, hi]
      · rw [stateAt_defined, if_neg hsame', hj]

theorem of_same (h : MadeAlike U made t u) {t' u' : Store}
    (ht : ∀ i j, made i j → t'.stateAt i = t.stateAt i)
    (hu : ∀ i j, made i j → u'.stateAt j = u.stateAt j) : MadeAlike U made t' u' where
  injective := h.injective
  held := by
    intro i j hij
    obtain ⟨st, st', hi, hj, hst⟩ := h.held hij
    exact ⟨st, st', (ht i j hij).trans hi, (hu i j hij).trans hj, hst⟩

end MadeAlike
end Store

namespace Assembly
variable {role : Role} {U made : Set Nat} {link own : Link} {a : Assembly} {t u : Store}

/-- The assemblies are renamings of each other, after the one has made slots in `t` and the other has
made as many in `u`. Of these, the slots `own` may still be filled. -/
structure Beside (role : Role) (U : Set Nat) (link own : Link) (a b : Assembly) (t u : Store) :
    Prop where
  renamed : a.Renamed role (.onWith U link) own b
  own_le : ∀ i j, own i j → link i j
  made : Store.MadeAlike U link t u

namespace Beside

theorem placeholder {next next' : Nat → Assembly}
    (h : Beside role U link own (.placeholder next) (.placeholder next') t u) :
    Beside role U (link.add t.slots.size u.slots.size) (own.add t.slots.size u.slots.size)
      (next t.slots.size) (next' u.slots.size)
      { t with slots := t.slots.push { state := .unfilled } }
      { u with slots := u.slots.push { state := .unfilled } } where
  renamed := by
    obtain ⟨_, heq, hnext⟩ := h.renamed
    cases heq
    exact (hnext _ _).mono Link.onWith_add fun _ _ h => h
  own_le := Link.add_mono h.own_le _ _
  made := h.made.push .unfilled

theorem deferred {name : String} {keeps keeps' : List Nat} {build build' next next' : Nat → Assembly}
    (h : Beside role U link own (.deferred name keeps build next) (.deferred name keeps' build' next') t u) :
    Beside role U (link.add t.slots.size u.slots.size) own (next t.slots.size) (next' u.slots.size)
      { t with slots := t.slots.push
                { state := .deferred (build t.slots.size), name := some name
                  keeps := t.slots.size :: keeps } }
      { u with slots := u.slots.push
                { state := .deferred (build' u.slots.size), name := some name
                  keeps := u.slots.size :: keeps' } } where
  renamed := by
    obtain ⟨_, _, _, heq, -, hnext⟩ := h.renamed
    cases heq
    exact (hnext _ _).mono Link.onWith_add fun _ _ h => h
  own_le i j hij := .inl (h.own_le i j hij)
  made := by
    obtain ⟨_, _, _, heq, hbuild, -⟩ := h.renamed
    cases heq
    exact h.made.push (.deferred ((hbuild _ _).mono Link.onWith_add fun _ _ h => h))

theorem define {slot slot' : Nat} {g g' : Grammar} {next next' : Assembly}
    (h : Beside role U link own (.define slot g next) (.define slot' g' next') t u) :
    Beside role U link own next next' (t.defined slot g) (u.defined slot' g') where
  renamed := by
    obtain ⟨_, _, _, heq, -, -, hnext⟩ := h.renamed
    cases heq
    exact hnext
  own_le := h.own_le
  made := by
    obtain ⟨_, _, _, heq, hown, hg, -⟩ := h.renamed
    cases heq
    exact h.made.defined (h.own_le _ _ hown) hg

theorem publish {name name' : String} {g g' : Grammar} {next next' : Assembly}
    (h : Beside role U link own (.publish name g next) (.publish name' g' next') t u) :
    Beside role U link own next next' { t with published := (name, g) :: t.published }
      { u with published := (name', g') :: u.published } where
  renamed := by
    obtain ⟨_, _, heq, -, hnext⟩ := h.renamed
    cases heq
    exact hnext
  own_le := h.own_le
  made := h.made.of_same (fun _ _ _ => rfl) fun _ _ _ => rfl

theorem mono_own {b : Assembly} {own' : Link} (h : Beside role U link own a b t u)
    (hown : ∀ i j, own i j → own' i j) (hle : ∀ i j, own' i j → link i j) :
    Beside role U link own' a b t u where
  renamed := h.renamed.mono (fun _ _ h => h) hown
  own_le := hle
  made := h.made

theorem of_same {b : Assembly} (h : Beside role U link own a b t u) {t' u' : Store}
    (ht : ∀ i j, link i j → t'.stateAt i = t.stateAt i)
    (hu : ∀ i j, link i j → u'.stateAt j = u.stateAt j) : Beside role U link own a b t' u' where
  renamed := h.renamed
  own_le := h.own_le
  made := h.made.of_same ht hu

end Beside

/-- With no attempt on the way, `a` in the store `s` comes to `b` in the store `t`. -/
structure ComesTo (a : Assembly) (s : Store) (b : Assembly) (t : Store) : Prop where
  perform : a.perform untried s = b.perform untried t
  entered : ∀ run, a.entered run s = b.entered run t

/-- In the store `t`, `rest` is what remains to be done of the assembly `a` that refers to the view `U`,
after the slots `made` have been made. In any other store it might have been carried out just as
far. -/
structure Halfway (role : Role) (a : Assembly) (U made : Set Nat) (rest : Assembly) (t : Store) :
    Prop where
  here : Beside role U (.on made) (.on made) rest rest t t
  elsewhere : ∀ s : Store, ∃ rest' s' link own, a.ComesTo s rest' s' ∧
    Beside role U link own rest rest' t s' ∧ s.KeptIn s' ∧
    ∀ i j, link i j → i ∈ made ∧ s.slots.size ≤ j

namespace Halfway

theorem start (ha : a.Renamed role (.on U) .empty a) (t : Store) : Halfway role a U ∅ a t where
  here := {
    renamed := ha.mono Link.on_le_onWith nofun
    own_le := nofun
    made := { injective := fun _ _ _ _ h => h.2.elim, held := fun _ _ h => h.2.elim } }
  elsewhere s := ⟨a, s, .empty, .empty, ⟨rfl, fun _ => rfl⟩, {
    renamed := ha.mono Link.on_le_onWith nofun
    own_le := nofun
    made := { injective := nofun, held := nofun } }, .refl s, nofun⟩

theorem of_same {rest : Assembly} (h : Halfway role a U made rest t) {t' : Store}
    (ht : ∀ i ∈ made, t'.stateAt i = t.stateAt i) : Halfway role a U made rest t' where
  here := h.here.of_same (fun i _ hij => ht i hij.2) fun i j hij => hij.1 ▸ ht i hij.2
  elsewhere s := by
    obtain ⟨rest', s', link, own, hcomes, hbeside, hkept, hlink⟩ := h.elsewhere s
    exact ⟨rest', s', link, own, hcomes,
      hbeside.of_same (fun i j hij => ht i (hlink i j hij).1) fun _ _ _ => rfl, hkept, hlink⟩

theorem linked {s s' : Store} (hkept : s.KeptIn s')
    (hlink : ∀ i j, link i j → i ∈ made ∧ s.slots.size ≤ j) {n : Nat} :
    ∀ i j, link.add n s'.slots.size i j → i ∈ insert n made ∧ s.slots.size ≤ j := by
  rintro i j (hij | ⟨rfl, rfl⟩)
  · exact ⟨mem_insert_of_mem n (hlink i j hij).1, (hlink i j hij).2⟩
  · exact ⟨mem_insert _ made, hkept.size_le⟩

theorem placeholder {next : Nat → Assembly} (h : Halfway role a U made (.placeholder next) t) :
    Halfway role a U (insert t.slots.size made) (next t.slots.size)
      { t with slots := t.slots.push { state := .unfilled } } where
  here := by
    have hhere := h.here.placeholder
    rw [Link.on_insert] at hhere
    exact hhere
  elsewhere s := by
    obtain ⟨rest', s', link, own, hcomes, hbeside, hkept, hlink⟩ := h.elsewhere s
    obtain ⟨next', rfl, -⟩ := hbeside.renamed
    refine ⟨next' s'.slots.size, { s' with slots := s'.slots.push { state := .unfilled } }, _, _,
      ⟨hcomes.perform, hcomes.entered⟩, hbeside.placeholder, hkept.push _, ?_⟩
    exact linked hkept hlink

theorem deferred {name : String} {keeps : List Nat} {build next : Nat → Assembly}
    (h : Halfway role a U made (.deferred name keeps build next) t) :
    Halfway role a U (insert t.slots.size made) (next t.slots.size)
      { t with slots := t.slots.push
                { state := .deferred (build t.slots.size), name := some name
                  keeps := t.slots.size :: keeps } } where
  here := by
    have hhere := h.here.deferred
    rw [Link.on_insert] at hhere
    exact hhere.mono_own (Link.on_mono (subset_insert _ _)) fun _ _ h => h
  elsewhere s := by
    obtain ⟨rest', s', link, own, hcomes, hbeside, hkept, hlink⟩ := h.elsewhere s
    obtain ⟨keeps', build', next', rfl, -⟩ := hbeside.renamed
    have hperform := hcomes.perform
    rw [perform_deferred] at hperform
    exact ⟨_, _, _, _, ⟨hperform, hcomes.entered⟩, hbeside.deferred, hkept.push _, linked hkept hlink⟩

theorem define {slot : Nat} {g : Grammar} {next : Assembly}
    (h : Halfway role a U made (.define slot g next) t) :
    slot ∈ made ∧ Halfway role a U made next (t.defined slot g) := by
  have hslot : slot ∈ made := by
    obtain ⟨_, _, _, heq, hown, -⟩ := h.here.renamed
    exact hown.2
  refine ⟨hslot, h.here.define, fun s => ?_⟩
  obtain ⟨rest', s', link, own, hcomes, hbeside, hkept, hlink⟩ := h.elsewhere s
  obtain ⟨slot', g', next', rfl, hown, -⟩ := hbeside.renamed
  have hperform := hcomes.perform
  rw [perform_define] at hperform
  have hslot' := (hlink _ _ (hbeside.own_le _ _ hown)).2
  exact ⟨_, _, _, _, ⟨hperform, hcomes.entered⟩, hbeside.define, hkept.defined hslot' g', hlink⟩

theorem publish {name : String} {g : Grammar} {next : Assembly}
    (h : Halfway role a U made (.publish name g next) t) :
    Halfway role a U made next { t with published := (name, g) :: t.published } where
  here := h.here.publish
  elsewhere s := by
    obtain ⟨rest', s', link, own, hcomes, hbeside, hkept, hlink⟩ := h.elsewhere s
    obtain ⟨g', next', rfl, -⟩ := hbeside.renamed
    exact ⟨next', { s' with published := (name, g') :: s'.published }, _, _,
      ⟨hcomes.perform, hcomes.entered⟩, hbeside.publish, hkept, hlink⟩

/-- An assembly that is refused means nothing in any store. -/
theorem refuse {e : GrammarError} (h : Halfway role a U made (.refuse e) t) (s : Store)
    (run : Store → Grammar → Parser (StateT Unit Option) Value) :
    a.entered run s = fun _ => unending := by
  obtain ⟨rest', s', link, own, hcomes, hbeside, -⟩ := h.elsewhere s
  obtain rfl := hbeside.renamed
  exact hcomes.entered run

/-- Done, the assembly has made a grammar that refers to the view and to what was made, and would have
made a renaming of it anywhere else. -/
theorem done {g : Grammar} (h : Halfway role a U made (.done g) t) (s : Store) :
    ∃ g' s' link, a.ComesTo s (.done g') s' ∧ g.Renamed (.onWith U link) g' ∧
      Store.MadeAlike U link t s' ∧ s.KeptIn s' ∧ ∀ i j, link i j → i ∈ made ∧ s.slots.size ≤ j := by
  obtain ⟨rest', s', link, own, hcomes, hbeside, hkept, hlink⟩ := h.elsewhere s
  obtain ⟨g', rfl, hg⟩ := hbeside.renamed
  exact ⟨g', s', link, hcomes, hg, hbeside.made, hkept, hlink⟩

theorem refers {g : Grammar} (h : Halfway role a U made (.done g) t) : g.Renamed (.on (U ∪ made)) g := by
  obtain ⟨_, heq, hg⟩ := h.here.renamed
  cases heq
  rw [Link.onWith_on] at hg
  exact hg

theorem held {rest : Assembly} (h : Halfway role a U made rest t) :
    ∀ i ∈ made, Store.HoldAlike (.on (U ∪ made)) t t i i := by
  intro i hi
  have hheld := h.here.made.held ⟨rfl, hi⟩
  rw [Link.onWith_on] at hheld
  exact hheld

/-- The view may have grown meanwhile. -/
theorem settled {rest : Assembly} (h : Halfway role a U made rest t) {V : Set Nat} (hV : t.Settled V)
    (hUV : U ⊆ V) : t.Settled (V ∪ made) := by
  rintro i (hi | hi)
  · exact (hV i hi).mono (Link.on_mono subset_union_left)
  · exact (h.held i hi).mono (Link.on_mono (union_subset_union_left _ hUV))

variable {V : Set Nat} {g : Grammar} {slot : Nat}

/-- What is held in a settled view is held in a store to which no more than other slots were added. -/
theorem held_onWith {s : Store} (hV : t.Settled V) (hUV : U ⊆ V) (hkept : t.KeptIn s)
    (hmade : Store.MadeAlike U link t s) :
    ∀ i j, Link.onWith V link i j → Store.HoldAlike (.onWith V link) t s i j := by
  rintro i j (hij | hij)
  · have hsame : ∀ i ∈ V, s.stateAt i = t.stateAt i := by
      intro i hi
      obtain ⟨st, hst⟩ := hV.exists_state hi
      rw [hst, hkept hst]
    exact (hV.heldAlike hsame i j hij).mono Link.on_le_onWith
  · exact (hmade.held hij).mono (Link.onWith_mono hUV fun _ _ h => h)

/-- What was made means what the assembly means. -/
theorem means (h : Halfway role a U made (.done g) t) (hV : t.Settled V) (hUV : U ⊆ V) (n : Nat) :
    a.entered (Grammar.anewWithin n) t = g.anewWithin n t := by
  obtain ⟨g', s', link, hcomes, hg, hmade, hkept, -⟩ := h.done t
  rw [hcomes.entered]
  refine (Grammar.anewWithin_alike n (fun i j hij => ?_)
    (hg.mono (Link.onWith_mono hUV fun _ _ h => h))).symm
  exact .held (held_onWith hV hUV hkept hmade i j hij)

/-- Only a continuation comes to an attempt. What it tries refers to the view and to what was made, and
so does what it goes on with; and this means what the whole means. -/
theorem attempt {text : List Char} {next : Outcome Value → Assembly}
    (h : Halfway role a U made (.attempt g text next) t) (hV : t.Settled V) (hUV : U ⊆ V) :
    role = .continuation ∧ g.Renamed (.on (U ∪ made)) g ∧
      (∀ o, (next o).Renamed .continuation (.on (U ∪ made)) .empty (next o)) ∧
      ∀ n, a.entered (Grammar.anewWithin n) t =
        (Assembly.attempt g text next).entered (Grammar.anewWithin n) t := by
  obtain ⟨rest', s', link, own, hcomes, hbeside, hkept, -⟩ := h.elsewhere t
  obtain ⟨hrole, _, _, heq, hg, hnext⟩ := h.here.renamed
  cases heq
  subst hrole
  rw [Link.onWith_on] at hg
  simp only [Link.onWith_on] at hnext
  refine ⟨rfl, hg, hnext, fun n => ?_⟩
  -- What it has made may not be filled any more.
  have hempty : (Assembly.attempt g text next).Renamed .continuation (.onWith V link) .empty rest' := by
    obtain ⟨hrole, g', next', heq', hg', hnext'⟩ := hbeside.renamed
    have hle : ∀ i j, Link.onWith U link i j → Link.onWith V link i j :=
      Link.onWith_mono hUV fun _ _ h => h
    exact ⟨hrole, g', next', heq', hg'.mono hle, fun o => (hnext' o).mono hle fun _ _ h => h⟩
  rw [hcomes.entered]
  refine (entered_alike (fun h hg => Grammar.anewWithin_alike n h hg) (fun i j hij => ?_) hempty).symm
  exact .held (held_onWith hV hUV hkept hbeside.made i j hij)

/-- The slot that has put the assembly off may be filled with what was made. -/
theorem fill (h : Halfway .builder a U made (.done g) t) (hV : t.Settled V) (hUV : U ⊆ V) (hslot : slot ∈ V)
    (hst : t.stateAt slot = some (.deferred a)) (hapart : slot ∉ made) :
    t.KeepsView V (t.defined slot g) (V ∪ made) where
  subset := subset_union_left
  settled := by
    have hsettled := h.settled hV hUV
    refine Store.settled_of_state fun i hi => ?_
    by_cases hne : i = slot
    · subst hne
      refine ⟨.filled g, ?_, .filled (h.refers.mono (Link.on_mono (union_subset_union_left _ hUV)))⟩
      rw [Store.stateAt_defined, if_pos rfl, hst]
      rfl
    · obtain ⟨st, hi'⟩ := hsettled.exists_state hi
      refine ⟨st, ?_, hsettled.state hi hi'⟩
      rw [Store.stateAt_defined, if_neg hne, hi']
  entered b hb n := by
    obtain ⟨g', s', link, hcomes, hg, hmade, hkept, hlink⟩ := h.done t
    have hrun : ∀ {ρ : Link} {s t : Store} {g h : Grammar},
        (∀ i j, ρ i j → Store.MeanAlike ρ s t i j) → g.Renamed ρ h →
          g.anewWithin n s = h.anewWithin n t := fun h hg => Grammar.anewWithin_alike n h hg
    have hfilled : (s'.defined slot g').stateAt slot = some (.filled g') := by
      rw [Store.stateAt_defined, if_pos rfl, hkept hst]
      rfl
    -- Built in one go, the same is made in slots of its own.
    have hbuilt : b.entered (Grammar.anewWithin n) t =
        b.entered (Grammar.anewWithin n) (s'.defined slot g') := by
      refine entered_alike hrun ?_ hb
      rintro i _ ⟨rfl, hi⟩
      by_cases hne : i = slot
      · subst hne
        refine .built hst hfilled (hV.deferred hi hst) ⟨_, t, s', hcomes.perform, fun k st hle hk => ?_⟩
        have hlt := hV.lt_size hi
        rw [Store.stateAt_defined, if_neg (by omega), hk]
      · obtain ⟨st, hi'⟩ := hV.exists_state hi
        refine .held ⟨st, st, hi', ?_, hV.state hi hi'⟩
        rw [Store.stateAt_defined, if_neg hne, hkept hi']
    have hrenamed : (t.defined slot g).stateAt slot = some (.filled g) := by
      rw [Store.stateAt_defined, if_pos rfl, hst]
      rfl
    rw [hbuilt]
    suffices halike : ∀ i j, Link.onWith V link i j →
        Store.MeanAlike (.onWith V link) (t.defined slot g) (s'.defined slot g') i j from
      entered_alike hrun halike (hb.mono Link.on_le_onWith fun _ _ h => h)
    intro i j hij
    obtain ⟨st, st', hi, hj, halike⟩ := held_onWith hV hUV hkept hmade i j hij
    by_cases hne : i = slot
    · have hj' : j = slot := by
        rcases hij with ⟨rfl, -⟩ | hij
        · exact hne
        · exact absurd (hlink i j hij).1 (hne ▸ hapart)
      subst hne hj'
      exact .held ⟨_, _, hrenamed, hfilled, .filled (hg.mono (Link.onWith_mono hUV fun _ _ h => h))⟩
    · have hj' : j ≠ slot := by
        rcases hij with ⟨rfl, -⟩ | hij
        · exact hne
        · have := (hlink i j hij).2
          have := hV.lt_size hslot
          omega
      refine .held ⟨st, st', ?_, ?_, halike⟩
      · rw [Store.stateAt_defined, if_neg hne, hi]
      · rw [Store.stateAt_defined, if_neg hj', hj]
  slots i hi := by
    by_cases hne : i = slot
    · subst hne
      refine .inr ⟨a, g, hst, ?_⟩
      rw [Store.stateAt_defined, if_pos rfl, hst]
      rfl
    · exact .inl (by rw [Store.stateAt_defined, if_neg hne])

end Halfway
end Assembly
end FurthestFailure
