import FurthestFailure.Proofs.Slots

/-! # Grammars that differ in the slots they use

Slots are told apart by numbers, but which numbers they have says nothing. Two grammars are renamings
of each other along a link between slots if they are alike but for the slots that their handles
stand for, which the link connects, and for what they keep alive. Two assemblies are if they do alike
with slots that are linked, whatever numbers the slots they make are given. An assembly that is a
renaming of itself can neither look at a number nor come upon a slot that it has not been given.

An assembly may fill the placeholders that it has made, and no other slot. A builder tries no grammar,
so what it makes does not depend on what the slots hold. A continuation may try grammars; the
placeholders that it has made before it can fill no more, as what it tried may have come to know them.
-/
namespace FurthestFailure
set_option autoImplicit false

/-- Which slot on one side stands for which on the other. -/
abbrev Link := Nat → Nat → Prop

namespace Link

def empty : Link := fun _ _ => False

/-- Every slot below `size` for itself. -/
def below (size : Nat) : Link := fun i j => i = j ∧ i < size

def add (ρ : Link) (i j : Nat) : Link := fun i' j' => ρ i' j' ∨ i' = i ∧ j' = j

theorem add_mono {ρ ρ' : Link} (h : ∀ i j, ρ i j → ρ' i j) (i j : Nat) :
    ∀ i' j', ρ.add i j i' j' → ρ'.add i j i' j' := by
  rintro i' j' (hρ | hij)
  · exact .inl (h i' j' hρ)
  · exact .inr hij

end Link

/-- What an assembly is for: to build what a slot is to hold, or to go on from a value. -/
inductive Assembly.Role where
  | builder
  | continuation

namespace Grammar

/-- The grammar without what is held around it. -/
def bare : Grammar → Grammar
  | .holding _ g => g.bare
  | g => g

@[simp] theorem bare_bare : ∀ g : Grammar, g.bare.bare = g.bare
  | .holding _ g => g.bare_bare
  | .leaf _ | .map _ _ | .chain _ _ | .sequence _ | .choice _ | .many _ | .times _ _
  | .separatedBy _ _ | .separatedBy1 _ _ | .lookahead _ | .optional _ | .notFollowedBy _
  | .describe _ _ | .mark _ | .node _ _ | .handle _ _ => rfl

theorem bare_ne_holding {slots : List Nat} {k : Grammar} : ∀ g : Grammar, g.bare ≠ .holding slots k
  | .holding _ g => bare_ne_holding g
  | .leaf _ | .map _ _ | .chain _ _ | .sequence _ | .choice _ | .many _ | .times _ _
  | .separatedBy _ _ | .separatedBy1 _ _ | .lookahead _ | .optional _ | .notFollowedBy _
  | .describe _ _ | .mark _ | .node _ _ | .handle _ _ => nofun

end Grammar

mutual

def Grammar.Renamed (ρ : Link) : Grammar → Grammar → Prop
  | .leaf l, h => h.bare = .leaf l
  | .map g f, h => ∃ g', h.bare = .map g' f ∧ g.Renamed ρ g'
  | .chain g next, h =>
    ∃ g' next', h.bare = .chain g' next' ∧ g.Renamed ρ g' ∧
      ∀ v, (next v).Renamed .continuation ρ .empty (next' v)
  | .sequence gs, h => ∃ gs', h.bare = .sequence gs' ∧ Grammar.AllRenamed ρ gs gs'
  | .choice gs, h => ∃ gs', h.bare = .choice gs' ∧ Grammar.AllRenamed ρ gs gs'
  | .many g, h => ∃ g', h.bare = .many g' ∧ g.Renamed ρ g'
  | .times g count, h => ∃ g', h.bare = .times g' count ∧ g.Renamed ρ g'
  | .separatedBy g k, h =>
    ∃ g' k', h.bare = .separatedBy g' k' ∧ g.Renamed ρ g' ∧ k.Renamed ρ k'
  | .separatedBy1 g k, h =>
    ∃ g' k', h.bare = .separatedBy1 g' k' ∧ g.Renamed ρ g' ∧ k.Renamed ρ k'
  | .lookahead g, h => ∃ g', h.bare = .lookahead g' ∧ g.Renamed ρ g'
  | .optional g, h => ∃ g', h.bare = .optional g' ∧ g.Renamed ρ g'
  | .notFollowedBy g, h => ∃ g', h.bare = .notFollowedBy g' ∧ g.Renamed ρ g'
  | .describe g label, h => ∃ g', h.bare = .describe g' label ∧ g.Renamed ρ g'
  | .mark g, h => ∃ g', h.bare = .mark g' ∧ g.Renamed ρ g'
  | .node g name, h => ∃ g', h.bare = .node g' name ∧ g.Renamed ρ g'
  | .handle slot label, h => ∃ slot', h.bare = .handle slot' label ∧ ρ slot slot'
  | .holding _ g, h => g.Renamed ρ h

def Grammar.AllRenamed (ρ : Link) : List Grammar → List Grammar → Prop
  | [], hs => hs = []
  | g :: gs, hs => ∃ h hs', hs = h :: hs' ∧ g.Renamed ρ h ∧ Grammar.AllRenamed ρ gs hs'

/-- `own` links the placeholders that have been made so far. -/
def Assembly.Renamed : Assembly → Assembly.Role → Link → Link → Assembly → Prop
  | .done g, _, ρ, _, b => ∃ g', b = .done g' ∧ g.Renamed ρ g'
  | .refuse e, _, _, _, b => b = .refuse e
  | .placeholder next, role, ρ, own, b =>
    ∃ next', b = .placeholder next' ∧
      ∀ i j, (next i).Renamed role (ρ.add i j) (own.add i j) (next' j)
  | .define slot g next, role, ρ, own, b =>
    ∃ slot' g' next', b = .define slot' g' next' ∧ own slot slot' ∧ g.Renamed ρ g' ∧
      next.Renamed role ρ own next'
  | .deferred name _ build next, role, ρ, own, b =>
    ∃ keeps' build' next', b = .deferred name keeps' build' next' ∧
      (∀ i j, (build i).Renamed .builder (ρ.add i j) .empty (build' j)) ∧
      ∀ i j, (next i).Renamed role (ρ.add i j) own (next' j)
  | .attempt g text next, role, ρ, _, b =>
    role = .continuation ∧ ∃ g' next', b = .attempt g' text next' ∧ g.Renamed ρ g' ∧
      ∀ o, (next o).Renamed role ρ .empty (next' o)
  | .publish name g next, role, ρ, own, b =>
    ∃ g' next', b = .publish name g' next' ∧ g.Renamed ρ g' ∧ next.Renamed role ρ own next'

end

mutual

theorem Grammar.Renamed.mono {ρ ρ' : Link} (hρ : ∀ i j, ρ i j → ρ' i j) :
    ∀ {g h : Grammar}, g.Renamed ρ h → g.Renamed ρ' h
  | .leaf _, _, h => h
  | .map _ _, _, ⟨g', hb, hg⟩ => ⟨g', hb, hg.mono hρ⟩
  | .chain _ _, _, ⟨g', next', hb, hg, hnext⟩ =>
    ⟨g', next', hb, hg.mono hρ, fun v => (hnext v).mono hρ fun _ _ h => h⟩
  | .sequence _, _, ⟨gs', hb, hgs⟩ => ⟨gs', hb, Grammar.AllRenamed.mono hρ hgs⟩
  | .choice _, _, ⟨gs', hb, hgs⟩ => ⟨gs', hb, Grammar.AllRenamed.mono hρ hgs⟩
  | .many _, _, ⟨g', hb, hg⟩ => ⟨g', hb, hg.mono hρ⟩
  | .times _ _, _, ⟨g', hb, hg⟩ => ⟨g', hb, hg.mono hρ⟩
  | .separatedBy _ _, _, ⟨g', k', hb, hg, hk⟩ => ⟨g', k', hb, hg.mono hρ, hk.mono hρ⟩
  | .separatedBy1 _ _, _, ⟨g', k', hb, hg, hk⟩ => ⟨g', k', hb, hg.mono hρ, hk.mono hρ⟩
  | .lookahead _, _, ⟨g', hb, hg⟩ => ⟨g', hb, hg.mono hρ⟩
  | .optional _, _, ⟨g', hb, hg⟩ => ⟨g', hb, hg.mono hρ⟩
  | .notFollowedBy _, _, ⟨g', hb, hg⟩ => ⟨g', hb, hg.mono hρ⟩
  | .describe _ _, _, ⟨g', hb, hg⟩ => ⟨g', hb, hg.mono hρ⟩
  | .mark _, _, ⟨g', hb, hg⟩ => ⟨g', hb, hg.mono hρ⟩
  | .node _ _, _, ⟨g', hb, hg⟩ => ⟨g', hb, hg.mono hρ⟩
  | .handle _ _, _, ⟨slot', hb, hs⟩ => ⟨slot', hb, hρ _ _ hs⟩
  | .holding _ g, _, h => Grammar.Renamed.mono (g := g) hρ h

theorem Grammar.AllRenamed.mono {ρ ρ' : Link} (hρ : ∀ i j, ρ i j → ρ' i j) :
    ∀ {gs hs : List Grammar}, Grammar.AllRenamed ρ gs hs → Grammar.AllRenamed ρ' gs hs
  | [], _, h => h
  | _ :: _, _, ⟨h, hs', heq, hg, hgs⟩ => ⟨h, hs', heq, hg.mono hρ, Grammar.AllRenamed.mono hρ hgs⟩

theorem Assembly.Renamed.mono {role : Assembly.Role} {ρ ρ' own own' : Link}
    (hρ : ∀ i j, ρ i j → ρ' i j) (hown : ∀ i j, own i j → own' i j) :
    ∀ {a b : Assembly}, a.Renamed role ρ own b → a.Renamed role ρ' own' b
  | .done _, _, ⟨g', hb, hg⟩ => ⟨g', hb, hg.mono hρ⟩
  | .refuse _, _, h => h
  | .placeholder _, _, ⟨next', hb, hnext⟩ =>
    ⟨next', hb, fun i j => (hnext i j).mono (Link.add_mono hρ i j) (Link.add_mono hown i j)⟩
  | .define _ _ _, _, ⟨slot', g', next', hb, hs, hg, hnext⟩ =>
    ⟨slot', g', next', hb, hown _ _ hs, hg.mono hρ, hnext.mono hρ hown⟩
  | .deferred _ _ _ _, _, ⟨keeps', build', next', hb, hbuild, hnext⟩ =>
    ⟨keeps', build', next', hb,
      fun i j => (hbuild i j).mono (Link.add_mono hρ i j) fun _ _ h => h,
      fun i j => (hnext i j).mono (Link.add_mono hρ i j) hown⟩
  | .attempt _ _ _, _, ⟨hrole, g', next', hb, hg, hnext⟩ =>
    ⟨hrole, g', next', hb, hg.mono hρ, fun o => (hnext o).mono hρ fun _ _ h => h⟩
  | .publish _ _ _, _, ⟨g', next', hb, hg, hnext⟩ =>
    ⟨g', next', hb, hg.mono hρ, hnext.mono hρ hown⟩

end

namespace Assembly

/-- A continuation may do what a builder may. -/
theorem Renamed.continuation {role : Role} :
    ∀ {a b : Assembly} {ρ own : Link}, a.Renamed role ρ own b → a.Renamed .continuation ρ own b
  | .done _, _, _, _, h => h
  | .refuse _, _, _, _, h => h
  | .placeholder _, _, _, _, ⟨next', hb, hnext⟩ =>
    ⟨next', hb, fun i j => (hnext i j).continuation⟩
  | .define _ _ _, _, _, _, ⟨slot', g', next', hb, hs, hg, hnext⟩ =>
    ⟨slot', g', next', hb, hs, hg, hnext.continuation⟩
  | .deferred _ _ _ _, _, _, _, ⟨keeps', build', next', hb, hbuild, hnext⟩ =>
    ⟨keeps', build', next', hb, hbuild, fun i j => (hnext i j).continuation⟩
  | .attempt _ _ _, _, _, _, ⟨_, g', next', hb, hg, hnext⟩ =>
    ⟨rfl, g', next', hb, hg, fun o => (hnext o).continuation⟩
  | .publish _ _ _, _, _, _, ⟨g', next', hb, hg, hnext⟩ =>
    ⟨g', next', hb, hg, hnext.continuation⟩

theorem not_renamed_attempt {g : Grammar} {text : List Char} {next : Outcome Value → Assembly}
    {ρ own : Link} {b : Assembly} : ¬ (attempt g text next).Renamed .builder ρ own b := nofun

end Assembly
end FurthestFailure
