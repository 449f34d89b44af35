import FurthestFailure.Proofs.Anew.Keeping

/-! # Functions made of combinators

A function that makes a grammar out of a given one cannot tell one slot from another, if all it does is
to combine. Given renamings of each other it then makes renamings of each other, and this is all that
is asked of such a function here. What it makes may be used by another function in turn.
-/
namespace FurthestFailure
set_option autoImplicit false

/-- What the assembly makes is handed on to `next`. -/
def Assembly.andThen : Assembly → Assembling Grammar
  | done g, next => next g
  | refuse e, _ => refuse e
  | placeholder rest, next => placeholder fun slot => (rest slot).andThen next
  | define slot g rest, next => define slot g (rest.andThen next)
  | deferred name keeps build rest, next =>
    deferred name keeps build fun slot => (rest slot).andThen next
  | attempt g text rest, next => attempt g text fun o => (rest o).andThen next
  | publish name g rest, next => publish name g (rest.andThen next)

/-- The function makes grammars as the combinators do, of what the store holds and what it is given:
of renamings of each other it makes renamings of each other. -/
def Store.Uniform (s : Store) (build : Grammar → Assembly) : Prop :=
  ∀ ⦃ρ⦄, (∀ i j, Link.below s.slots.size i j → ρ i j) →
    ∀ ⦃g h⦄, g.Renamed ρ h → (build g).Renamed .builder ρ .empty (build h)

namespace Assembly

@[simp] theorem andThen_done : ∀ a : Assembly, a.andThen done = a
  | done _ | refuse _ => rfl
  | placeholder rest => congrArg placeholder (funext fun slot => (rest slot).andThen_done)
  | define slot g rest => congrArg (define slot g) rest.andThen_done
  | deferred name keeps build rest =>
    congrArg (deferred name keeps build) (funext fun slot => (rest slot).andThen_done)
  | attempt g text rest => congrArg (attempt g text) (funext fun o => (rest o).andThen_done)
  | publish name g rest => congrArg (publish name g) rest.andThen_done

theorem perform_andThen (run : Grammar → Parser Engine Value) (next : Grammar → Assembly) :
    ∀ a : Assembly, (a.andThen next).perform run = (do
      match ← a.perform run with
      | .ok g => (next g).perform run
      | .error e => return .error e)
  | done _ | refuse _ => rfl
  | placeholder rest => by
    have h := fun slot => perform_andThen run next (rest slot)
    simp only [andThen, perform, h, bind_assoc]
  | define slot g rest => by
    simp only [andThen, perform, perform_andThen run next rest, bind_assoc]
  | deferred name keeps build rest => by
    have h := fun slot => perform_andThen run next (rest slot)
    simp only [andThen, perform, h, bind_assoc]
  | attempt g text rest => by
    have h := fun o => perform_andThen run next (rest o)
    simp only [andThen, perform, h, bind_assoc]
  | publish name g rest => by
    simp only [andThen, perform, perform_andThen run next rest, bind_assoc]

theorem Renamed.andThen : ∀ {a b : Assembly} {ρ own : Link} {next next' : Grammar → Assembly},
    a.Renamed .builder ρ own b →
    (∀ {ρ' own' : Link} {g h : Grammar}, (∀ i j, ρ i j → ρ' i j) → (∀ i j, own i j → own' i j) →
      g.Renamed ρ' h → (next g).Renamed .builder ρ' own' (next' h)) →
    (a.andThen next).Renamed .builder ρ own (b.andThen next')
  | done _, _, _, _, _, _, ⟨_, rfl, hg⟩, hnext => hnext (fun _ _ h => h) (fun _ _ h => h) hg
  | refuse _, _, _, _, _, _, rfl, _ => rfl
  | placeholder _, _, _, _, _, _, ⟨_, rfl, hrest⟩, hnext =>
    ⟨_, rfl, fun i j => (hrest i j).andThen fun hρ hown hg =>
      hnext (fun i j h => hρ i j (.inl h)) (fun i j h => hown i j (.inl h)) hg⟩
  | define _ _ _, _, _, _, _, _, ⟨_, _, _, rfl, hs, hg, hrest⟩, hnext =>
    ⟨_, _, _, rfl, hs, hg, hrest.andThen hnext⟩
  | deferred _ _ _ _, _, _, _, _, _, ⟨_, _, _, rfl, hbuild, hrest⟩, hnext =>
    ⟨_, _, _, rfl, hbuild, fun i j => (hrest i j).andThen fun hρ hown hg =>
      hnext (fun i j h => hρ i j (.inl h)) hown hg⟩
  | attempt _ _ _, _, _, _, _, _, h, _ => (not_renamed_attempt h).elim
  | publish _ _ _, _, _, _, _, _, ⟨_, _, rfl, hg, hrest⟩, hnext =>
    ⟨_, _, rfl, hg, hrest.andThen hnext⟩

end Assembly
end FurthestFailure
