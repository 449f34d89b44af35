import FurthestFailure.Proofs.Termination.Nullable

/-! # Combinators that end

A combinator ends where it is run if its parts end wherever it runs them: there, as long as nothing
may have been taken before them, and wherever less is left unread. A repetition comes to its end
because a round that takes nothing is its last one; a list with separators has no such guard, and
needs an item or a separator that takes something.
-/
namespace FurthestFailure
set_option autoImplicit false

/-- `x` ends, and leaves the store as it was. -/
def Settles {α : Type} (store : Store) (x : Engine α) : Prop := ∃ a, x store = some (a, store)

/-- The parser does not succeed where it began. -/
def Parser.Advances {α : Type} (store : Store) (p : Parser Engine α) : Prop :=
  ∀ ⦃c u after⦄, p c store = some (.success u, after) → u.rest ≠ c

namespace Settles
variable {α β : Type} {store : Store} {c : Cursor}

theorem pure (a : α) : Settles store (Pure.pure a) := ⟨a, rfl⟩

theorem bind {x : Engine (Outcome α)} {f : Outcome α → Engine β} (hx : Settles store x)
    (hsuccess : ∀ u, x store = some (.success u, store) → Settles store (f (.success u)))
    (hfailure : ∀ t, Settles store (f (.failure t))) : Settles store (x >>= f) := by
  obtain ⟨o, ho⟩ := hx
  have hf : Settles store (f o) := by
    cases o with
    | success u => exact hsuccess u ho
    | failure t => exact hfailure t
  obtain ⟨b, hb⟩ := hf
  exact ⟨b, Option.bind_eq_some_iff.mpr ⟨_, ho, hb⟩⟩

variable {p : Parser Engine α} {q : Parser Engine β} {still still' : Prop}

theorem map (h : Settles store (p c)) (f : α → β) : Settles store (p.map f c) :=
  h.bind (fun _ _ => pure _) fun _ => pure _

theorem describe (h : Settles store (p c)) (label : String) :
    Settles store (p.describe label c) :=
  h.bind (fun _ _ => pure _) fun _ => pure _

theorem mark (h : Settles store (p c)) : Settles store (p.mark c) :=
  h.bind (fun _ _ => pure _) fun _ => pure _

theorem lookahead (h : Settles store (p c)) : Settles store (p.lookahead c) :=
  h.bind (fun _ _ => pure _) fun _ => pure _

theorem optional (h : Settles store (p c)) : Settles store (p.optional c) :=
  h.bind (fun _ _ => pure _) fun _ => pure _

theorem notFollowedBy (h : Settles store (p c)) : Settles store (p.notFollowedBy c) :=
  h.bind (fun _ _ => pure _) fun _ => pure _

section
variable {run : Grammar → Parser Engine α} {N : Grammar → Prop} {gs : List Grammar}

theorem choiceFrom (h : ∀ g ∈ gs, Settles store (run g c)) (trail : Option Trail) :
    Settles store (Parser.choiceFrom (gs.map run) trail c) := by
  induction gs generalizing trail with
  | nil =>
    cases trail with
    | none => exact pure _
    | some t => exact pure _
  | cons g gs ih =>
    obtain ⟨hg, hgs⟩ := List.forall_mem_cons.mp h
    exact hg.bind (fun _ _ => pure _) fun _ => ih hgs _

-- A grammar of the sequence is called here only if all before it may take nothing.
theorem sequenceFrom (hm : ∀ g ∈ gs, (run g).Moves store (N g))
    (hnow : ∀ before g after, gs = before ++ g :: after → (∀ b ∈ before, N b) →
      Settles store (run g c))
    (hlater : ∀ d, d.rest.length < c.rest.length → ∀ g ∈ gs, Settles store (run g d))
    (values : List α) (trail : Option Trail) :
    Settles store (Parser.sequenceFrom (gs.map run) values trail c) := by
  induction gs generalizing c values trail with
  | nil => exact pure _
  | cons g gs ih =>
    obtain ⟨hg, hgs⟩ := List.forall_mem_cons.mp hm
    refine (hnow [] g gs rfl nofun).bind (fun u hu => ?_) fun _ => pure _
    obtain ⟨honward, hstill⟩ := (hg c hu).2 u rfl
    change Settles store (Parser.sequenceFrom (gs.map run) _ _ u.rest)
    by_cases hback : u.rest = c
    · rw [hback]
      refine ih hgs ?_ (fun d hd k hk => hlater d hd k (.tail _ hk)) _ _
      intro before k after hsplit hbefore
      refine hnow (g :: before) k after (congrArg (g :: ·) hsplit) ?_
      exact List.forall_mem_cons.mpr ⟨hstill hback, hbefore⟩
    · have hlt := honward.length_lt hback
      refine ih hgs ?_ (fun d hd k hk => hlater d (Nat.lt_trans hd hlt) k (.tail _ hk)) _ _
      intro before k after hsplit _
      refine hlater _ hlt k (.tail _ ?_)
      rw [hsplit]
      exact List.mem_append_right _ (.head _)

end

theorem timesFrom (hm : p.Moves store still) (count : Nat) (hnow : 0 < count → Settles store (p c))
    (hlater : ∀ d, d.rest.length < c.rest.length → Settles store (p d)) (values : List α)
    (trail : Option Trail) : Settles store (p.timesFrom count values trail c) := by
  induction count generalizing c values trail with
  | zero => exact pure _
  | succ count ih =>
    refine (hnow (Nat.succ_pos _)).bind (fun u hu => ?_) fun _ => pure _
    change Settles store (p.timesFrom count _ _ u.rest)
    by_cases hback : u.rest = c
    · rw [hback]
      exact ih (fun _ => hnow (Nat.succ_pos _)) hlater _ _
    · have hlt := ((hm c hu).2 u rfl).1.length_lt hback
      exact ih (fun _ => hlater _ hlt) (fun d hd => hlater d (Nat.lt_trans hd hlt)) _ _

-- A round that takes nothing is the last one.
theorem manyFrom (hm : p.Moves store still) (h : ∀ d, c.Onward d → Settles store (p d))
    (rounds : Nat) (values : List α) (trail : Option Trail) :
    Settles store (p.manyFrom rounds values trail c) := by
  induction hn : c.rest.length using Nat.strongRecOn generalizing c values trail with
  | ind n ih =>
    rw [Parser.manyFrom]
    refine (h c (.refl c)).bind (fun u hu => ?_) fun _ => pure _
    have honward := ((hm c hu).2 u rfl).1
    by_cases hi : u.rest.position.index = c.position.index
    · simp only [if_pos hi]
      exact pure _
    · have hlt := honward.length_lt (mt honward.index_eq_iff.mpr hi)
      simp only [if_neg hi, dif_pos (Or.inl hlt), Parser.roundsLeft_of_shorter hlt]
      exact ih _ (hn ▸ hlt) (fun d hd => h d (honward.trans hd)) _ _ rfl

section
variable (hm : p.Moves store still) (hm' : q.Moves store still')
variable (hround : p.Advances store ∨ q.Advances store)
include hm hm' hround

-- Each round takes something, with the separator or with the item.
theorem separatedFrom (hsep : Settles store (q c)) (hitem : still' → Settles store (p c))
    (hlater : ∀ d, d.rest.length < c.rest.length → Settles store (p d) ∧ Settles store (q d))
    (rounds : Nat) (values : List α) (trail : Option Trail) :
    Settles store (Parser.separatedFrom p q rounds values trail c) := by
  induction hn : c.rest.length using Nat.strongRecOn generalizing c values trail with
  | ind n ih =>
    rw [Parser.separatedFrom]
    refine hsep.bind (fun between hbetween => ?_) fun _ => pure _
    obtain ⟨honward, hstill⟩ := (hm' c hbetween).2 between rfl
    have hnext : Settles store (p between.rest) := by
      by_cases hback : between.rest = c
      · rw [hback]
        exact hitem (hstill hback)
      · exact (hlater _ (honward.length_lt hback)).1
    refine hnext.bind (fun u hu => ?_) fun _ => pure _
    have honward' := ((hm _ hu).2 u rfl).1
    have hne : u.rest ≠ c := by
      intro hback
      obtain ⟨hstayed, hstayed'⟩ := honward.eq_of_back honward' hback
      rcases hround with hp | hq
      · exact hp hu hstayed'
      · exact hq hbetween hstayed
    have hlt := (honward.trans honward').length_lt hne
    simp only [dif_pos (Or.inl hlt), Parser.roundsLeft_of_shorter hlt]
    exact ih _ (hn ▸ hlt) (hlater _ hlt).2 (fun _ => (hlater _ hlt).1)
      (fun d hd => hlater d (Nat.lt_trans hd hlt)) _ _ rfl

variable (hitem : Settles store (p c)) (hsep : still → Settles store (q c))
variable (hlater : ∀ d, d.rest.length < c.rest.length → Settles store (p d) ∧ Settles store (q d))
include hitem hsep hlater

theorem separatedFrom_item {u : Success α} (hu : p c store = some (.success u, store))
    (rounds : Nat) (values : List α) (trail : Option Trail) :
    Settles store (Parser.separatedFrom p q rounds values trail u.rest) := by
  obtain ⟨honward, hstill⟩ := (hm c hu).2 u rfl
  by_cases hback : u.rest = c
  · rw [hback]
    exact separatedFrom hm hm' hround (hsep (hstill hback)) (fun _ => hitem) hlater _ _ _
  · have hlt := honward.length_lt hback
    exact separatedFrom hm hm' hround (hlater _ hlt).2 (fun _ => (hlater _ hlt).1)
      (fun d hd => hlater d (Nat.lt_trans hd hlt)) _ _ _

theorem separatedBy : Settles store (p.separatedBy q c) :=
  hitem.bind (fun _ hu => separatedFrom_item hm hm' hround hitem hsep hlater hu _ _ _) fun _ => pure _

theorem separatedBy1 : Settles store (p.separatedBy1 q c) :=
  hitem.bind (fun _ hu => separatedFrom_item hm hm' hround hitem hsep hlater hu _ _ _) fun _ => pure _

end
end Settles
end FurthestFailure
