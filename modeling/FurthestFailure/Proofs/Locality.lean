import FurthestFailure.Proofs.Depth
import FurthestFailure.Proofs.Reading

/-! # A run depends on the unread text only

Two runs on the same unread text, behind two texts that were read before, end alike: the same value
or a failure, the same text left unread and the same labels expected, at places that the same piece
of the unread text leads to. Grammars that yield places themselves are left out.
-/
namespace FurthestFailure
set_option autoImplicit false

/-- Neither the leaf for the place nor a mark, and no leaf from outside the library. -/
def Grammar.IgnoresPlace : Grammar → Prop
  | .leaf l => l.IsLibrary ∧ l ≠ .position
  | .mark _ | .node _ _ => False
  | _ => True

/-- Places behind `u` and behind `v` that the same piece of `s` leads to. -/
def Position.Beside (u v s : List Char) (p q : Position) : Prop :=
  ∃ read, read <+: s ∧ p = start.advancedOver (u ++ read) ∧ q = start.advancedOver (v ++ read)

namespace Trail

structure Beside (u v s : List Char) (a b : Trail) : Prop where
  position : a.position.Beside u v s b.position
  expected : a.expected = b.expected

variable {u v s : List Char} {a a' b b' : Trail}

theorem Beside.lt_iff (ha : Beside u v s a a') (hb : Beside u v s b b') :
    a.position.index < b.position.index ↔ a'.position.index < b'.position.index := by
  obtain ⟨read, _, hp, hp'⟩ := ha.position
  obtain ⟨read', _, hq, hq'⟩ := hb.position
  rw [hp, hp', hq, hq']
  simp only [Position.advancedOver_index, Text.byteLength_append]
  omega

theorem Beside.merge (ha : Beside u v s a a') (hb : Beside u v s b b') :
    Beside u v s (a.merge b) (a'.merge b') := by
  rw [Trail.merge, Trail.merge]
  by_cases hlt : a.position.index < b.position.index
  · rw [if_pos hlt, if_pos ((ha.lt_iff hb).mp hlt)]
    exact hb
  · rw [if_neg hlt, if_neg (mt (ha.lt_iff hb).mpr hlt)]
    by_cases hgt : b.position.index < a.position.index
    · rw [if_pos hgt, if_pos ((hb.lt_iff ha).mp hgt)]
      exact ha
    · rw [if_neg hgt, if_neg (mt (hb.lt_iff ha).mpr hgt)]
      exact ⟨ha.position, by rw [ha.expected, hb.expected]⟩

theorem Beside.merge? {a a' b b' : Option Trail} (ha : Option.Rel (Beside u v s) a a')
    (hb : Option.Rel (Beside u v s) b b') :
    Option.Rel (Beside u v s) (Trail.merge? a b) (Trail.merge? a' b') := by
  cases ha with
  | none =>
    cases hb with
    | none => exact .none
    | some hb => exact .some hb
  | some ha =>
    cases hb with
    | none => exact .some ha
    | some hb => exact .some (ha.merge hb)

end Trail

namespace Correspondence
variable {u v s : List Char}

/-- Runs on the unread text `s`, the one behind `u` and the other behind `v`. -/
def beside (u v s : List Char) : Correspondence Store Store where
  cursors c d := ∃ read rest, read ++ rest = s ∧ c = .after (u ++ read) rest ∧
    d = .after (v ++ read) rest
  ready x y := x = y ∧ x.Everywhere Grammar.IgnoresPlace
  stretch _ _ x y a b :=
    x = y ∧ x.Everywhere Grammar.IgnoresPlace ∧ Option.Rel (Trail.Beside u v s) a b
  stay h := ⟨h.1, h.2, .none⟩
  ready_after h := ⟨h.1, h.2.1⟩
  join h h' := ⟨h'.1, h'.2.1, Trail.Beside.merge? h.2.2 h'.2.2⟩
  none_iff h := by
    rcases h.2.2 with _ | _ <;> simp
  still_iff := by
    rintro _ _ _ _ ⟨read, rest, _, rfl, rfl⟩ ⟨read', rest', _, rfl, rfl⟩
    simp only [Cursor.after_index, Text.byteLength_append]
    omega
  shorter := by
    rintro _ _ _ _ ⟨read, rest, _, rfl, rfl⟩ ⟨read', rest', _, rfl, rfl⟩
    exact id

theorem beside_permissive : (beside u v s).Permissive where
  fail label hcd hst := by
    obtain ⟨read, rest, hs, rfl, rfl⟩ := hcd
    exact ⟨hst.1, hst.2, .some ⟨⟨read, ⟨rest, hs⟩, rfl, rfl⟩, rfl⟩⟩
  drop h := ⟨h.1, h.2.1, .none⟩
  relabel label h := by
    obtain ⟨hst, hP, hab⟩ := h
    cases hab with
    | some hab => exact ⟨hst, hP, .some ⟨hab.position, rfl⟩⟩
  matched := by
    rintro _ _ _ _ ⟨read, rest, _, rfl, rfl⟩ ⟨read', rest', _, rfl, rfl⟩
    simp only [Cursor.after_index, Text.byteLength_append, Cursor.after_rest,
      Nat.add_sub_add_left]

theorem beside_leaf {l : Leaf} (hl : (Grammar.leaf l).IgnoresPlace) :
    (beside u v s).Agree Eq (fun c => pure (l.run c)) fun c => pure (l.run c) := by
  rintro _ _ ⟨read, rest, rfl, rfl, rfl⟩ x _ ⟨rfl, hx⟩
  obtain ⟨hlibrary, hplace⟩ := hl
  beta_reduce
  rw [Leaf.run_eq hlibrary, Leaf.run_eq hlibrary,
    Leaf.reading?_place hplace _ (Cursor.after (v ++ read) rest).position]
  simp only [Cursor.after_rest]
  rcases hr : l.reading? (Cursor.after (v ++ read) rest).position rest with _ | ⟨matched, w⟩
  · refine leave (beside_permissive.fail l.label ?_ ⟨rfl, hx⟩) .failure
    exact ⟨read, rest, rfl, rfl, rfl⟩
  · obtain ⟨rest', rfl⟩ := Leaf.reading?_prefix hlibrary hr
    refine leave ⟨rfl, hx, .none⟩ (.success rfl ?_)
    refine ⟨read ++ matched, rest', List.append_assoc .., ?_, ?_⟩
    · simp [Cursor.advance_after]
    · simp [Cursor.advance_after]

end Correspondence

/-- The place behind `u` that corresponds to a place of the text `s` alone. -/
def Position.behind (u s : List Char) (p : Position) : Position :=
  (start.advancedOver u).advancedOver (Text.takeBytes p.index s)

def Trail.behind (u s : List Char) (t : Trail) : Trail := ⟨t.position.behind u s, t.expected⟩

/-- The outcome with everything it says of the text `s` said of `s` behind `u`. -/
def Outcome.behind {α : Type} (u s : List Char) : Outcome α → Outcome α
  | .success r =>
    .success ⟨r.value, ⟨u ++ s, r.rest.position.behind u s, r.rest.rest⟩,
      r.furthest.map (·.behind u s)⟩
  | .failure t => .failure (t.behind u s)

section
variable {u s : List Char}

theorem Position.behind_advancedOver {read : List Char} (h : read <+: s) :
    (start.advancedOver read).behind u s = start.advancedOver (u ++ read) := by
  obtain ⟨rest, rfl⟩ := h
  simp [behind, start, Text.takeBytes_byteLength_append, advancedOver_append]

theorem Trail.Beside.eq_behind {a b : Trail} (h : Beside u [] s a b) : a = b.behind u s := by
  obtain ⟨read, hread, hp, hq⟩ := h.position
  rw [List.nil_append] at hq
  have hposition : a.position = b.position.behind u s := by
    rw [hp, hq, Position.behind_advancedOver hread]
  rw [behind, ← hposition, ← h.expected]

theorem Trail.Beside.eq_map_behind {a b : Option Trail} (h : Option.Rel (Beside u [] s) a b) :
    a = b.map (·.behind u s) := by
  cases h with
  | none => rfl
  | some h => rw [h.eq_behind, Option.map_some]

open Correspondence

theorem Outcome.eq_behind {o o' : Outcome Value}
    (ho : Outcome.Alike (beside u [] s).cursors Eq o o')
    (ht : Option.Rel (Trail.Beside u [] s) o.trail? o'.trail?) : o = o'.behind u s := by
  have hmap := Trail.Beside.eq_map_behind ht
  cases ho with
  | failure => exact congrArg Outcome.failure (Option.some.inj hmap)
  | @success r r' hv hc =>
    obtain ⟨read, rest, rfl, hc, hd⟩ := hc
    obtain ⟨w, c, a⟩ := r
    obtain ⟨w', d, b⟩ := r'
    obtain rfl : w = w' := hv
    obtain rfl : c = Cursor.after (u ++ read) rest := hc
    obtain rfl : d = Cursor.after read rest := hd
    have hposition : (Position.start.advancedOver read).behind u (read ++ rest) =
        Position.start.advancedOver (u ++ read) := Position.behind_advancedOver ⟨rest, rfl⟩
    obtain rfl : a = b.map (·.behind u (read ++ rest)) := hmap
    simp only [Outcome.behind, hposition, Cursor.after, List.append_assoc]

namespace Grammar

theorem runWithin_beside {g : Grammar} (hg : g.Everywhere IgnoresPlace) (u v s : List Char)
    (depth : Nat) : (beside u v s).Agree Eq (g.runWithin depth) (g.runWithin depth) := by
  induction depth generalizing g with
  | zero => exact fun _ _ _ _ _ _ => Follows.none
  | succ depth ih =>
    have hsame : ∀ g, g.Everywhere IgnoresPlace →
        (same (Store.Everywhere IgnoresPlace)).Agree Eq (runWithin depth g) (runWithin depth g) :=
      fun g hg => runWithin_agree Store.lasting_everywhere hg (Nat.le_refl _)
    -- Slots and assemblies do not depend on the cursor, so there both runs do the very same.
    have hquiet : (beside u v s).Quiet (Store.Everywhere IgnoresPlace) :=
      ⟨id, fun h => ⟨h.1, h.2, .none⟩⟩
    rw [runWithin]
    cases g with
    | leaf l => exact beside_leaf hg
    | mark g => exact hg.1.elim
    | node g name => exact hg.1.elim
    | _ =>
      exact beside_permissive.agree_parser (fun g hg => ih hg)
        (fun slot x y h => hquiet.enter_follows Store.lasting_everywhere hsame slot h)
        (fun a ha x y h => hquiet.performed_follows Store.lasting_everywhere hsame ha h) hg
        (by simp) (by simp) (by simp)

/-- Behind a text `u` that was read before, a grammar runs on `s` as it does on `s` alone. -/
theorem run_behind {g : Grammar} (hg : g.Everywhere IgnoresPlace) {store : Store}
    (hs : store.Everywhere IgnoresPlace) (u s : List Char) (depth : Nat) :
    g.runWithin depth ((Cursor.start (u ++ s)).advance u) store =
      (g.runWithin depth (.start s) store).map fun r => (r.1.behind u s, r.2) := by
  have hbehind : ∀ v, (Cursor.start (v ++ s)).advance v = .after (v ++ []) s := by
    intro v
    rw [Cursor.advance_start, List.append_nil]
  have hstart : Cursor.start s = .after ([] ++ []) s := by simp
  rcases hafter : g.runWithin depth ((Cursor.start (u ++ s)).advance u) store with _ | ⟨o, t⟩
  · rcases halone : g.runWithin depth (.start s) store with _ | r
    · rfl
    · obtain ⟨r', hr', _⟩ := runWithin_beside hg [] u s depth
        ⟨[], s, rfl, hstart, hbehind u⟩ ⟨rfl, hs⟩ halone
      rw [hafter] at hr'
      cases hr'
  · obtain ⟨⟨o', t'⟩, halone, ⟨rfl, _, htrail⟩, ho⟩ := runWithin_beside hg u [] s depth
      ⟨[], s, rfl, hbehind u, hstart⟩ ⟨rfl, hs⟩ hafter
    have hbehind : o = o'.behind u s := Outcome.eq_behind ho htrail
    rw [halone, Option.map_some, hbehind]

/-- A number of `a` and then as many `b`, or any line. -/
def countedOrLine : Grammar :=
  .or
    (.chain (.many (.leaf (.literal "a"))) fun v =>
      .done (.times (.leaf (.literal "b")) v.items.length))
    (.leaf (.takeWhile (· != '\n')))

theorem run_behind_countedOrLine :
    countedOrLine.runWithin 4 ((Cursor.start (['é', '\n'] ++ ['a', 'a', 'b'])).advance ['é', '\n'])
        {} =
      some (.success ⟨.text "aab", .after ['é', '\n', 'a', 'a', 'b'] [],
        some ⟨⟨6, 2, 4⟩, .single "'b'"⟩⟩, {}) := by
  have hg : countedOrLine.Everywhere IgnoresPlace := by
    simp [countedOrLine, Grammar.or, Everywhere, AllEverywhere, Assembly.Everywhere, IgnoresPlace,
      Leaf.IsLibrary]
  have hletters : (many (.leaf (.literal "a"))).runWithin 2 (.start ['a', 'a', 'b']) {} =
      some (.success ⟨.list [.text "a", .text "a"], .after ['a', 'a'] ['b'],
        some (.failure ⟨2, 1, 3⟩ "'a'")⟩, {}) :=
    Option.bind_eq_some_iff.mpr ⟨_, Parser.manyFrom_of_moved rfl (by decide) (by decide)
      (Parser.manyFrom_of_moved rfl (by decide) (by decide) (Parser.manyFrom_of_failed rfl)), rfl⟩
  have halone : countedOrLine.runWithin 4 (.start ['a', 'a', 'b']) {} =
      some (.success ⟨.text "aab", .after ['a', 'a', 'b'] [],
        some ⟨⟨3, 1, 4⟩, .single "'b'"⟩⟩, {}) :=
    Option.bind_eq_some_iff.mpr ⟨_, Option.bind_eq_some_iff.mpr ⟨_, hletters, rfl⟩, rfl⟩
  rw [run_behind hg Store.everywhere_empty, halone]
  rfl

end Grammar
end
end FurthestFailure
