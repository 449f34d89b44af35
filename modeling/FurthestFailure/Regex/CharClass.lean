import FurthestFailure.Text
import FurthestFailure.Unicode.Words
import FurthestFailure.Unicode.Folding

/-! # Classes of characters

A class is kept as its ranges of code points, ascending, with a gap between any two of them and no
surrogate inside, so that classes of the same characters are equal values. `pairwise_joined` is why
joining ranges leaves gaps.
-/
namespace FurthestFailure.Regex
set_option autoImplicit false

structure CharClass where
  ranges : List (Nat × Nat)
  apart : ranges.Pairwise fun a b => a.2 + 1 < b.1
  deriving DecidableEq, Repr

namespace CharClass

def lastCodePoint : Nat := 0x10FFFF

def has (a : CharClass) (x : Char) : Bool := Unicode.within a.ranges x.toNat

/-- Joins ranges that overlap or touch, given in ascending order of their first members. -/
def joined : List (Nat × Nat) → List (Nat × Nat)
  | a :: b :: rest =>
    if b.1 ≤ a.2 + 1 then joined ((a.1, Nat.max a.2 b.2) :: rest) else a :: joined (b :: rest)
  | ranges => ranges
termination_by ranges => ranges.length

theorem le_of_mem_joined {a : Nat × Nat} {rest : List (Nat × Nat)}
    (h : ∀ r ∈ a :: rest, r.1 ≤ r.2) : ∀ r ∈ joined (a :: rest), a.1 ≤ r.1 := by
  induction rest generalizing a with
  | nil => simp [joined]
  | cons b rest ih =>
    have ha := h a (by simp)
    rw [joined]
    split
    · refine ih fun r hr => ?_
      rcases List.mem_cons.1 hr with rfl | hr
      · exact Nat.le_trans ha (Nat.le_max_left _ _)
      · exact h r (by simp [hr])
    · intro r hr
      rcases List.mem_cons.1 hr with rfl | hr
      · exact Nat.le_refl _
      · have hb := ih (fun r hr => h r (List.mem_cons_of_mem _ hr)) r hr
        omega

theorem pairwise_joined {ranges : List (Nat × Nat)} (h : ∀ r ∈ ranges, r.1 ≤ r.2) :
    (joined ranges).Pairwise fun a b => a.2 + 1 < b.1 := by
  fun_induction joined ranges with
  | case1 a b rest _ ih =>
    refine ih fun r hr => ?_
    rcases List.mem_cons.1 hr with rfl | hr
    · exact Nat.le_trans (h a (by simp)) (Nat.le_max_left _ _)
    · exact h r (by simp [hr])
  | case2 a b rest hgap ih =>
    have hrest : ∀ r ∈ b :: rest, r.1 ≤ r.2 := fun r hr => h r (List.mem_cons_of_mem _ hr)
    refine List.pairwise_cons.2 ⟨fun r hr => ?_, ih hrest⟩
    have hb := le_of_mem_joined hrest r hr
    omega
  | case3 ranges hshort =>
    match ranges, hshort with
    | [], _ => exact .nil
    | [_], _ => exact List.pairwise_singleton _ _
    | a :: b :: rest, hshort => exact absurd rfl (hshort a b rest)

/-- The parts of a range on either side of the surrogates. -/
def withoutSurrogates (r : Nat × Nat) : List (Nat × Nat) :=
  [(r.1, Nat.min r.2 0xD7FF), (Nat.max r.1 0xE000, r.2)].filter fun p => p.1 ≤ p.2

theorem le_of_mem_withoutSurrogates {r p : Nat × Nat} (h : p ∈ withoutSurrogates r) :
    p.1 ≤ p.2 := by
  simpa using (List.mem_filter.1 h).2

def ofRanges (ranges : List (Nat × Nat)) : CharClass where
  ranges := joined ((ranges.flatMap withoutSurrogates).mergeSort fun a b => a.1 ≤ b.1)
  apart := pairwise_joined fun r hr => by
    obtain ⟨_, _, h⟩ := List.mem_flatMap.1 (List.mem_mergeSort.1 hr)
    exact le_of_mem_withoutSurrogates h

def empty : CharClass := ⟨[], .nil⟩

def any : CharClass := ofRanges [(0, lastCodePoint)]

def between (low high : Char) : CharClass := ofRanges [(low.toNat, high.toNat)]

def one (c : Char) : CharClass := between c c

def digit : CharClass := ofRanges Unicode.digitRanges

def word : CharClass := ofRanges Unicode.wordRanges

def blank : CharClass := ofRanges Text.blankRanges

def union (a b : CharClass) : CharClass := ofRanges (a.ranges ++ b.ranges)

/-- The ranges between those of an ascending list, from `first` on. -/
def gaps (first : Nat) : List (Nat × Nat) → List (Nat × Nat)
  | [] => if first ≤ lastCodePoint then [(first, lastCodePoint)] else []
  | r :: rest =>
    if first < r.1 then (first, r.1 - 1) :: gaps (r.2 + 1) rest else gaps (r.2 + 1) rest

def complement (a : CharClass) : CharClass := ofRanges (gaps 0 a.ranges)

def inter (a b : CharClass) : CharClass := (a.complement.union b.complement).complement

def difference (a b : CharClass) : CharClass := a.inter b.complement

def symmetricDifference (a b : CharClass) : CharClass := (a.difference b).union (b.difference a)

/-- Adds what differs in case only. -/
def anyCase (a : CharClass) : CharClass :=
  let shared := Unicode.caseOrbits.filter fun orbit => orbit.any (Unicode.within a.ranges)
  ofRanges (a.ranges ++ shared.flatten.map fun n => (n, n))

def isAscii (a : CharClass) : Bool := a.ranges.all fun r => r.2 ≤ 0x7F

def ascii : CharClass := ofRanges [(0, 0x7F)]

/-- Adds the ASCII letters that differ in case only. -/
def anyAsciiCase (a : CharClass) : CharClass := a.union ((a.inter ascii).anyCase.inter ascii)

/-- The only member, if there is exactly one. -/
def single? (a : CharClass) : Option Char :=
  match a.ranges with
  | [r] => if r.1 = r.2 then some (Char.ofNat r.1) else none
  | _ => none

/-- The line feed and, where carriage returns end lines too, those. -/
def lineEnds (carriageReturns : Bool) : CharClass :=
  ofRanges (if carriageReturns then [(10, 10), (13, 13)] else [(10, 10)])

end CharClass
end FurthestFailure.Regex
