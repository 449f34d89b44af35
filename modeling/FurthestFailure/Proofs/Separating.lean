import FurthestFailure.Proofs.Repeating

/-! # What is behind the items of a separated list

Behind its first item a separated list goes round after round, each a separator and an item. It is told
by recursion: where no separator is there is no more, and behind a separator there has to be an item and
then the same again. If a round takes something, there is only one parser that does this. It goes through
rounds and then stops, for want of a separator, or of an item behind one.
-/
namespace FurthestFailure
set_option autoImplicit false

namespace Parser

section
variable {m : Type → Type} [Monad m] {α β : Type}

/-- What is behind an item: nothing if no separator is there, otherwise an item, and behind it what
`itself` reads. -/
def behindItem (item : Parser m α) (separator : Parser m β) (itself : Parser m (List α)) :
    Parser m (List α) :=
  separator.optional.chain fun
    | none => succeed []
    | some _ => item.chain fun v => itself.map (v :: ·)

theorem behindItem_eq [LawfulMonad m] (item : Parser m α) (separator : Parser m β)
    (itself : Parser m (List α)) (c : Cursor) : behindItem item separator itself c = (do
      match ← separator c with
      | .failure t => return .success ⟨[], c, some t⟩
      | .success b =>
        match ← item b.rest with
        | .failure a => return (Outcome.failure a).withPrior b.furthest
        | .success u =>
          (fun o => (o.map (u.value :: ·)).withPrior (Trail.merge? b.furthest u.furthest)) <$>
            itself u.rest) := by
  rw [behindItem, chain, optional, bind_assoc]
  apply bind_congr
  rintro (b | t)
  · simp only [pure_bind, Outcome.map, chain, bind_assoc]
    apply bind_congr
    rintro (u | a)
    · simp only [map, bind_assoc, pure_bind, Outcome.withPrior_withPrior, map_eq_pure_bind]
      rfl
    · simp only [pure_bind]
  · simp [succeed, Cursor.succeed, Outcome.withPrior_success]

end

variable {σ α β : Type} {item : Parser (StateT σ Option) α} {separator : Parser (StateT σ Option) β}
variable {text : List Char} {I : σ → Prop} {tail : Parser (StateT σ Option) (List α)}
variable {c d : Cursor} {s s' s₁ s₂ : σ} {o : Outcome (List α)}

/-- A separated list in the middle of its work puts before what is left to do what it has collected. -/
theorem separatedFrom_eq (item : Parser (StateT σ Option) α) (separator : Parser (StateT σ Option) β)
    (rounds : Nat) (values : List α) (trail : Option Trail) (c : Cursor) :
    separatedFrom item separator rounds values trail c =
      (fun o => (o.map (values.reverse ++ ·)).withPrior trail) <$>
        separatedFrom item separator rounds [] none c := by
  induction rounds, c using rounds_induction generalizing values trail with
  | round rounds c ih =>
    rw [separatedFrom.eq_1, separatedFrom.eq_1, map_bind]
    apply bind_congr
    rintro (b | t)
    · simp only [map_bind]
      apply bind_congr
      rintro (u | t)
      · by_cases hl : u.rest.rest.length < c.rest.length ∨ 0 < rounds
        · simp only [dif_pos hl]
          rw [ih _ hl, ih _ hl [u.value], ← comp_map]
          refine congrArg (· <$> separatedFrom item separator (roundsLeft rounds c u.rest) [] none
            u.rest) (funext fun o => ?_)
          simp [Outcome.map_withPrior, Outcome.map_map, Outcome.withPrior_withPrior,
            Trail.merge?_assoc, Function.comp_def]
        · simp only [dif_neg hl]
          rfl
      · simp only [map_pure, Outcome.map_withPrior, Trail.none_merge?, Outcome.withPrior_withPrior,
          Outcome.map_failure]
    · simp [Outcome.map, Outcome.withPrior_success]

/-- What `separatedBy1` does behind its first item. -/
def moreItems (item : Parser (StateT σ Option) α) (separator : Parser (StateT σ Option) β) :
    Parser (StateT σ Option) (List α) := separatedFrom item separator roundLimit [] none

theorem separatedBy1_eq (item : Parser (StateT σ Option) α)
    (separator : Parser (StateT σ Option) β) : item.separatedBy1 separator =
      item.chain fun v => (item.moreItems separator).map (v :: ·) := by
  funext c
  apply bind_congr
  rintro (u | t)
  · simp only [separatedFrom_eq item separator roundLimit [u.value], map, moreItems, bind_pure_comp, ← comp_map]
    rfl
  · rfl

/-- Items and separators keep to the text, and a separator with an item behind it takes something. -/
structure Alternating (text : List Char) (I : σ → Prop) (item : Parser (StateT σ Option) α)
    (separator : Parser (StateT σ Option) β) : Prop where
  item_stays : item.Stays text I
  separator_stays : separator.Stays text I
  onward {c : Cursor} {s s₁ s₂ : σ} {b : Success β} {u : Success α} : c.Reached text → I s →
    separator c s = some (.success b, s₁) → item b.rest s₁ = some (.success u, s₂) →
    c.position.index < u.rest.position.index

/-- In the text and in states of the kind, the parser calls itself behind each item. -/
def CallsItself (text : List Char) (I : σ → Prop) (item : Parser (StateT σ Option) α)
    (separator : Parser (StateT σ Option) β) (tail : Parser (StateT σ Option) (List α)) : Prop :=
  ∀ ⦃c s⦄, c.Reached text → I s → tail c s = behindItem item separator tail c s

/-- Rounds of a separator and an item, each where the one before it stopped. -/
inductive Alternates (item : Parser (StateT σ Option) α) (separator : Parser (StateT σ Option) β) :
    Cursor → σ → List (Success β × Success α) → Cursor → σ → Prop
  | nil {c : Cursor} {s : σ} : Alternates item separator c s [] c s
  | cons {c d : Cursor} {s s₁ s₂ s' : σ} {b : Success β} {u : Success α}
    {rounds : List (Success β × Success α)} (hsep : separator c s = some (.success b, s₁))
    (hitem : item b.rest s₁ = some (.success u, s₂))
    (hmore : Alternates item separator u.rest s₂ rounds d s') :
    Alternates item separator c s ((b, u) :: rounds) d s'

/-- What is there in place of one more round: no separator, or one without an item. -/
inductive Stops (item : Parser (StateT σ Option) α) (separator : Parser (StateT σ Option) β) :
    Cursor → σ → Outcome (List α) → σ → Prop
  | ended {c : Cursor} {s s' : σ} {t : Trail} (h : separator c s = some (.failure t, s')) :
    Stops item separator c s (.success ⟨[], c, some t⟩) s'
  | missing {c : Cursor} {s s₁ s' : σ} {b : Success β} {a : Trail}
    (hsep : separator c s = some (.success b, s₁))
    (hitem : item b.rest s₁ = some (.failure a, s')) :
    Stops item separator c s ((Outcome.failure a).withPrior b.furthest) s'

theorem behindItem_eq_some_iff : behindItem item separator tail c s = some (o, s') ↔
    Stops item separator c s o s' ∨
      ∃ b s₁ u s₂ o', separator c s = some (.success b, s₁) ∧
        item b.rest s₁ = some (.success u, s₂) ∧ tail u.rest s₂ = some (o', s') ∧
        o = (o'.map (u.value :: ·)).withPrior (Trail.merge? b.furthest u.furthest) := by
  rw [behindItem_eq]
  constructor
  · intro h
    obtain ⟨⟨b | t, s₁⟩, hsep, h⟩ := Option.bind_eq_some_iff.mp h
    · obtain ⟨⟨u | a, s₂⟩, hitem, h⟩ := Option.bind_eq_some_iff.mp h
      · obtain ⟨⟨o', _⟩, hmore, ho⟩ := Option.bind_eq_some_iff.mp h
        cases ho
        exact .inr ⟨b, s₁, u, s₂, o', hsep, hitem, hmore, rfl⟩
      · cases h
        exact .inl (.missing hsep hitem)
    · cases h
      exact .inl (.ended hsep)
  · rintro ((⟨hsep⟩ | ⟨hsep, hitem⟩) | ⟨b, s₁, u, s₂, o', hsep, hitem, hmore, rfl⟩)
    · exact Option.bind_eq_some_iff.mpr ⟨_, hsep, rfl⟩
    · apply Option.bind_eq_some_iff.mpr ⟨_, hsep, ?_⟩
      exact Option.bind_eq_some_iff.mpr ⟨_, hitem, rfl⟩
    · apply Option.bind_eq_some_iff.mpr ⟨_, hsep, ?_⟩
      apply Option.bind_eq_some_iff.mpr ⟨_, hitem, ?_⟩
      exact Option.bind_eq_some_iff.mpr ⟨_, hmore, rfl⟩

/-- The trails of all rounds, merged in the order in which they come. -/
def roundsTrail (rounds : List (Success β × Success α)) : Option Trail :=
  rounds.foldr (fun r trail => Trail.merge? (Trail.merge? r.1.furthest r.2.furthest) trail) none

def roundsValues (rounds : List (Success β × Success α)) : List α := rounds.map (·.2.value)

/-- The outcome with what the rounds before it have left in front. -/
def afterRounds (rounds : List (Success β × Success α)) (o : Outcome (List α)) : Outcome (List α) :=
  (o.map (roundsValues rounds ++ ·)).withPrior (roundsTrail rounds)

theorem afterRounds_nil (o : Outcome (List α)) :
    afterRounds ([] : List (Success β × Success α)) o = o := by
  cases o with
  | success w => simp [afterRounds, roundsValues, roundsTrail, Outcome.map]
  | failure t => rfl

theorem afterRounds_cons (b : Success β) (u : Success α) (rounds : List (Success β × Success α))
    (o : Outcome (List α)) : afterRounds ((b, u) :: rounds) o =
      ((afterRounds rounds o).map (u.value :: ·)).withPrior
        (Trail.merge? b.furthest u.furthest) := by
  simp only [afterRounds, Outcome.map_withPrior, Outcome.map_map, Outcome.withPrior_withPrior]
  rfl

theorem afterRounds_missing (rounds : List (Success β × Success α)) (a : Trail)
    (trail prior : Option Trail) (f : List α → List α) :
    ((afterRounds rounds ((Outcome.failure a).withPrior trail)).map f).withPrior prior =
      (Outcome.failure a).withPrior
        (Trail.merge? prior (Trail.merge? (roundsTrail rounds) trail)) := by
  simp only [afterRounds, Outcome.map_withPrior, Outcome.map_failure, Outcome.withPrior_withPrior]

theorem Alternating.of_consumes (hitem : item.GoesOn text I) (hseparator : separator.GoesOn text I)
    (hconsumes : item.Consumes text I) : Alternating text I item separator where
  item_stays := hitem.toStays
  separator_stays := hseparator.toStays
  onward hc hs hsep hread := by
    have hc₁ := hseparator.reached hc hs hsep
    have hs₁ := hseparator.kept hc hs hsep
    have hle := hseparator.onward hc hs hsep
    have hle' := hitem.onward hc₁ hs₁ hread
    have hne := hconsumes hc₁ hs₁ hread
    omega

namespace Alternating
variable (hp : Alternating text I item separator)
include hp

theorem shorter (hc : c.Reached text) (hs : I s) {b : Success β} {u : Success α}
    (hsep : separator c s = some (.success b, s₁)) (hitem : item b.rest s₁ = some (.success u, s₂)) :
    u.rest.Reached text ∧ I s₂ ∧ u.rest.rest.length < c.rest.length := by
  have hreached := hp.separator_stays.reached hc hs hsep
  have hkept := hp.separator_stays.kept hc hs hsep
  have hreached' := hp.item_stays.reached hreached hkept hitem
  exact ⟨hreached', hp.item_stays.kept hreached hkept hitem,
    hc.length_lt hreached' (hp.onward hc hs hsep hitem)⟩

theorem moreItems_callsItself : CallsItself text I item separator (item.moreItems separator) := by
  intro c s hc hs
  rw [moreItems, separatedFrom.eq_1, behindItem_eq]
  apply Option.bind_congr
  rintro ⟨b | t, s₁⟩ hsep
  · apply Option.bind_congr
    rintro ⟨u | a, s₂⟩ hitem
    · obtain ⟨-, -, hl⟩ := hp.shorter hc hs hsep hitem
      simp only [dif_pos (Or.inl hl), roundsLeft_of_shorter hl,
        separatedFrom_eq item separator roundLimit [u.value], Trail.none_merge?]
      rfl
    · simp only [Trail.none_merge?]
  · rfl

/-- Whatever calls itself behind each item goes round after round, and then stops. -/
theorem eq_some_iff (htail : CallsItself text I item separator tail)
    (hc : c.Reached text) (hs : I s) : tail c s = some (o, s') ↔
      ∃ rounds d s₁ o', Alternates item separator c s rounds d s₁ ∧
        Stops item separator d s₁ o' s' ∧ o = afterRounds rounds o' := by
  constructor
  · intro h
    -- Nothing but the unread text gets less from one round to the next.
    induction hn : c.rest.length using Nat.strongRecOn generalizing c s o with
    | ind n ih =>
      rw [htail hc hs] at h
      rcases behindItem_eq_some_iff.mp h with
        hstop | ⟨b, s₁, u, s₂, o', hsep, hitem, hmore, rfl⟩
      · exact ⟨[], c, s, o, .nil, hstop, (afterRounds_nil o).symm⟩
      · obtain ⟨hc', hs', hl⟩ := hp.shorter hc hs hsep hitem
        obtain ⟨rounds, d, s₃, o', halt, hstop, rfl⟩ := ih _ (hn ▸ hl) hc' hs' hmore rfl
        exact ⟨(b, u) :: rounds, d, s₃, o', .cons hsep hitem halt, hstop,
          (afterRounds_cons b u rounds o').symm⟩
  · rintro ⟨rounds, d, s₁, o', halt, hstop, rfl⟩
    induction halt with
    | nil =>
      rw [htail hc hs, afterRounds_nil]
      exact behindItem_eq_some_iff.mpr (.inl hstop)
    | cons hsep hitem _ ih =>
      obtain ⟨hc', hs', -⟩ := hp.shorter hc hs hsep hitem
      rw [htail hc hs, afterRounds_cons]
      exact behindItem_eq_some_iff.mpr (.inr ⟨_, _, _, _, _, hsep, hitem, ih hc' hs' hstop, rfl⟩)

/-- There is only one that calls itself behind each item. -/
theorem eq_of_callsItself {tail' : Parser (StateT σ Option) (List α)}
    (htail : CallsItself text I item separator tail)
    (htail' : CallsItself text I item separator tail') (hc : c.Reached text) (hs : I s) :
    tail c s = tail' c s := by
  apply Option.ext
  rintro ⟨o, s'⟩
  rw [hp.eq_some_iff htail hc hs, hp.eq_some_iff htail' hc hs]

theorem moreItems_eq_some_iff (hc : c.Reached text) (hs : I s) {u : Success α}
    (hread : item c s = some (.success u, s₁)) :
    item.moreItems separator u.rest s₁ = some (o, s') ↔
      ∃ rounds d s₂ o', Alternates item separator u.rest s₁ rounds d s₂ ∧
        Stops item separator d s₂ o' s' ∧ o = afterRounds rounds o' :=
  hp.eq_some_iff hp.moreItems_callsItself (hp.item_stays.reached hc hs hread)
    (hp.item_stays.kept hc hs hread)

theorem exists_run (hitem : ∀ d t, d.Reached text → I t → ∃ o t', item d t = some (o, t'))
    (hseparator : ∀ d t, d.Reached text → I t → ∃ o t', separator d t = some (o, t'))
    (htail : CallsItself text I item separator tail) (hc : c.Reached text) (hs : I s) :
    ∃ o s', tail c s = some (o, s') := by
  induction hn : c.rest.length using Nat.strongRecOn generalizing c s with
  | ind n ih =>
    rw [htail hc hs]
    obtain ⟨b | t, s₁, hsep⟩ := hseparator c s hc hs
    · have hc₁ := hp.separator_stays.reached hc hs hsep
      obtain ⟨u | a, s₂, hread⟩ := hitem b.rest s₁ hc₁ (hp.separator_stays.kept hc hs hsep)
      · obtain ⟨hc₂, hs₂, hl⟩ := hp.shorter hc hs hsep hread
        obtain ⟨o, s', hmore⟩ := ih _ (hn ▸ hl) hc₂ hs₂ rfl
        exact ⟨_, s', behindItem_eq_some_iff.mpr
          (.inr ⟨b, s₁, u, s₂, o, hsep, hread, hmore, rfl⟩)⟩
      · exact ⟨_, s₂, behindItem_eq_some_iff.mpr (.inl (.missing hsep hread))⟩
    · exact ⟨_, s₁, behindItem_eq_some_iff.mpr (.inl (.ended hsep))⟩

end Alternating

end Parser
end FurthestFailure
