import FurthestFailure.Proofs.Coherence
import FurthestFailure.Proofs.Unbounded

/-! # Parsers that go on in the text

How far a loop gets depends on where its parser leaves it. All that can be asked of any parser is that it
keeps to the text; a parser that goes on does not leave the loop further back than it was. Every grammar
of the library goes on, in whatever state its slots are.
-/
namespace FurthestFailure
set_option autoImplicit false

namespace Parser
variable {σ α : Type}

/-- Wherever it is run in the text, in a state of the kind, the parser leaves such a state, and a success
is in the text. -/
structure Stays (text : List Char) (I : σ → Prop) (p : Parser (StateT σ Option) α) : Prop where
  kept {c : Cursor} {s s' : σ} {o : Outcome α} :
    c.Reached text → I s → p c s = some (o, s') → I s'
  reached {c : Cursor} {s s' : σ} {u : Success α} :
    c.Reached text → I s → p c s = some (.success u, s') → u.rest.Reached text

/-- And no success is before the cursor. -/
structure GoesOn (text : List Char) (I : σ → Prop) (p : Parser (StateT σ Option) α) : Prop
    extends p.Stays text I where
  onward {c : Cursor} {s s' : σ} {u : Success α} : c.Reached text → I s →
    p c s = some (.success u, s') → c.position.index ≤ u.rest.position.index

end Parser

namespace Grammar
variable {g : Grammar}

theorem goesOn_within (hg : g.IsLibrary) (text : List Char) (depth : Nat) :
    (g.runWithin depth).GoesOn text Store.IsLibrary where
  kept _ hs h := lasts_after Store.lasting_everywhere hg hs h
  reached hc hs h := (onward_of_runWithin hg hs hc h).1
  onward hc hs h := (onward_of_runWithin hg hs hc h).2

theorem goesOn_of_library (hg : g.IsLibrary) (text : List Char) :
    g.unbounded.GoesOn text Store.IsLibrary where
  kept hc hs h := by
    obtain ⟨depth, hrun⟩ := unbounded_eq_some_iff.mp h
    exact (goesOn_within hg text depth).kept hc hs hrun
  reached hc hs h := by
    obtain ⟨depth, hrun⟩ := unbounded_eq_some_iff.mp h
    exact (goesOn_within hg text depth).reached hc hs hrun
  onward hc hs h := by
    obtain ⟨depth, hrun⟩ := unbounded_eq_some_iff.mp h
    exact (goesOn_within hg text depth).onward hc hs hrun

end Grammar
end FurthestFailure
