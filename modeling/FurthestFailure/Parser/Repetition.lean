import FurthestFailure.Parser

/-! # Repetitions and separated lists

A round of a loop that leaves less text unread brings the end of the loop nearer. Rounds that take
nothing, or go back, are bounded in number, by a bound that no loop which ends on a machine can reach.
A loop that does not end within its bound is `unending`.
-/
namespace FurthestFailure.Parser
set_option autoImplicit false

variable {m : Type → Type} [Monad m] {α σ : Type}

def timesFrom (p : Parser m α) : Nat → List α → Option Trail → Parser m (List α)
  | 0, values, trail, c => return .success ⟨values.reverse, c, trail⟩
  | count + 1, values, trail, c => do
    match ← p c with
    | .success s => p.timesFrom count (s.value :: values) (Trail.merge? trail s.furthest) s.rest
    | .failure t => return (Outcome.failure t).withPrior trail

def times (p : Parser m α) (count : Nat) : Parser m (List α) := p.timesFrom count [] none

/-- How many rounds without progress a loop at `c` has left if its next round begins at `d`. -/
def roundsLeft (rounds : Nat) (c d : Cursor) : Nat :=
  if d.rest.length < c.rest.length then rounds else rounds - 1

theorem roundsLeft_decreases {rounds : Nat} {c d : Cursor}
    (h : d.rest.length < c.rest.length ∨ 0 < rounds) :
    Prod.Lex (· < ·) (· < ·) (roundsLeft rounds c d, d.rest.length) (rounds, c.rest.length) := by
  rw [roundsLeft]
  split
  · next hl => exact .right _ hl
  · next hl => exact .left _ _ (Nat.sub_one_lt_of_lt (h.resolve_left hl))

theorem roundsLeft_of_shorter {rounds : Nat} {c d : Cursor} (h : d.rest.length < c.rest.length) :
    roundsLeft rounds c d = rounds :=
  if_pos h

/-- Along the rounds of a loop. -/
theorem rounds_induction {motive : Nat → Cursor → Prop}
    (round : ∀ rounds c, (∀ d, d.rest.length < c.rest.length ∨ 0 < rounds →
      motive (roundsLeft rounds c d) d) → motive rounds c) (rounds : Nat) (c : Cursor) :
    motive rounds c :=
  round rounds c fun d _ => rounds_induction round (roundsLeft rounds c d) d
termination_by (rounds, c.rest.length)
decreasing_by exact roundsLeft_decreases ‹_›

def roundLimit : Nat := 1 <<< 62

variable [Unending m]

def manyFrom (p : Parser m α) (rounds : Nat) (values : List α) (trail : Option Trail) (c : Cursor) :
    m (Outcome (List α)) := do
  match ← p c with
  | .success s =>
    let trail := Trail.merge? trail s.furthest
    if s.rest.position.index = c.position.index then return .success ⟨values.reverse, c, trail⟩
    else if _h : s.rest.rest.length < c.rest.length ∨ 0 < rounds then
      p.manyFrom (roundsLeft rounds c s.rest) (s.value :: values) trail s.rest
    else unending
  | .failure t => return .success ⟨values.reverse, c, Trail.merge? trail (some t)⟩
termination_by (rounds, c.rest.length)
decreasing_by exact roundsLeft_decreases _h

def manyWithin (p : Parser m α) (rounds : Nat) : Parser m (List α) := p.manyFrom rounds [] none

/-- Repeats `p` until it fails or takes nothing; what it yields without taking anything is left
out. -/
def many (p : Parser m α) : Parser m (List α) := p.manyWithin roundLimit

def separatedFrom (item : Parser m α) (separator : Parser m σ) (rounds : Nat) (values : List α)
    (trail : Option Trail) (c : Cursor) : m (Outcome (List α)) := do
  match ← separator c with
  | .failure t => return .success ⟨values.reverse, c, Trail.merge? trail (some t)⟩
  | .success between =>
    let trail := Trail.merge? trail between.furthest
    match ← item between.rest with
    | .failure t => return (Outcome.failure t).withPrior trail
    | .success s =>
      if _h : s.rest.rest.length < c.rest.length ∨ 0 < rounds then
        separatedFrom item separator (roundsLeft rounds c s.rest) (s.value :: values)
          (Trail.merge? trail s.furthest) s.rest
      else unending
termination_by (rounds, c.rest.length)
decreasing_by exact roundsLeft_decreases _h

/-- Items with separators between them; a separator has to be followed by an item. -/
def separatedBy (item : Parser m α) (separator : Parser m σ) : Parser m (List α) := fun c => do
  match ← item c with
  | .success s => separatedFrom item separator roundLimit [s.value] s.furthest s.rest
  | .failure t => return .success ⟨[], c, some t⟩

/-- At least one item, otherwise as `separatedBy`. -/
def separatedBy1 (item : Parser m α) (separator : Parser m σ) : Parser m (List α) := fun c => do
  match ← item c with
  | .success s => separatedFrom item separator roundLimit [s.value] s.furthest s.rest
  | .failure t => return .failure t

section
variable {p : Parser (StateT σ Option) α} {rounds : Nat} {values : List α} {trail : Option Trail}
variable {c : Cursor} {s s' s₁ : σ} {t : Trail} {u : Success α} {r : Option (Outcome (List α) × σ)}

theorem manyFrom_of_failed (h : p c s = some (.failure t, s')) :
    p.manyFrom rounds values trail c s =
      some (.success ⟨values.reverse, c, Trail.merge? trail (some t)⟩, s') := by
  rw [manyFrom.eq_1]
  exact Option.bind_eq_some_iff.mpr ⟨_, h, rfl⟩

theorem manyFrom_of_still (h : p c s = some (.success u, s'))
    (hi : u.rest.position.index = c.position.index) :
    p.manyFrom rounds values trail c s =
      some (.success ⟨values.reverse, c, Trail.merge? trail u.furthest⟩, s') := by
  rw [manyFrom.eq_1]
  refine Option.bind_eq_some_iff.mpr ⟨_, h, ?_⟩
  simp only [if_pos hi]
  rfl

theorem manyFrom_of_moved (h : p c s = some (.success u, s'))
    (hi : u.rest.position.index ≠ c.position.index)
    (hl : u.rest.rest.length < c.rest.length ∨ 0 < rounds)
    (hmore : p.manyFrom (roundsLeft rounds c u.rest) (u.value :: values)
      (Trail.merge? trail u.furthest) u.rest s' = r) :
    p.manyFrom rounds values trail c s = r := by
  rw [manyFrom.eq_1]
  refine (congrArg (Option.bind · _) h).trans ?_
  simp only [Option.bind_some, if_neg hi, dif_pos hl, hmore]

variable {β : Type} {sep : Parser (StateT σ Option) β} {b : Success β}

theorem separatedFrom_of_failed (h : sep c s = some (.failure t, s')) :
    separatedFrom p sep rounds values trail c s =
      some (.success ⟨values.reverse, c, Trail.merge? trail (some t)⟩, s') := by
  rw [separatedFrom.eq_1]
  exact Option.bind_eq_some_iff.mpr ⟨_, h, rfl⟩

theorem separatedFrom_of_round (hsep : sep c s = some (.success b, s₁))
    (h : p b.rest s₁ = some (.success u, s'))
    (hl : u.rest.rest.length < c.rest.length ∨ 0 < rounds)
    (hmore : separatedFrom p sep (roundsLeft rounds c u.rest) (u.value :: values)
      (Trail.merge? (Trail.merge? trail b.furthest) u.furthest) u.rest s' = r) :
    separatedFrom p sep rounds values trail c s = r := by
  rw [separatedFrom.eq_1]
  refine (congrArg (Option.bind · _) hsep).trans ?_
  refine (congrArg (Option.bind · _) h).trans ?_
  simp only [Option.bind_some, dif_pos hl, hmore]

end

end FurthestFailure.Parser
