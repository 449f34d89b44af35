import FurthestFailure.Position

/-! # The deepest failure and what was expected there

A trail is a place and the labels expected at it. Merging two trails keeps the deeper one and, of
two equally deep ones, the left one's place with the labels of both. Labels are kept in ascending
order without repetition, so equal sets of labels are equal values.
-/
namespace FurthestFailure
set_option autoImplicit false

structure Labels where
  toList : List String
  ascending : toList.Pairwise (· < ·)
  deriving DecidableEq

namespace Labels

instance : Membership String Labels := ⟨fun s x => x ∈ s.toList⟩

@[simp] theorem mem_toList {s : Labels} {x : String} : x ∈ s.toList ↔ x ∈ s := Iff.rfl

def empty : Labels := ⟨[], .nil⟩

def single (label : String) : Labels := ⟨[label], by simp⟩

def place (x : String) : List String → List String
  | [] => [x]
  | y :: ys => if x < y then x :: y :: ys else if x = y then y :: ys else y :: place x ys

theorem mem_place {x z : String} {ys : List String} : z ∈ place x ys ↔ z = x ∨ z ∈ ys := by
  induction ys with
  | nil => simp [place]
  | cons y ys ih =>
    rw [place]
    split
    · simp
    · split
      · next h => subst h; simp
      · simp only [List.mem_cons, ih, or_left_comm]

theorem pairwise_place {x : String} {ys : List String} (h : ys.Pairwise (· < ·)) :
    (place x ys).Pairwise (· < ·) := by
  induction ys with
  | nil => simp [place]
  | cons y ys ih =>
    obtain ⟨hy, hys⟩ := List.pairwise_cons.mp h
    rw [place]
    split
    · next hxy =>
      refine List.pairwise_cons.mpr ⟨fun z hz => ?_, h⟩
      rcases List.mem_cons.mp hz with rfl | hz
      · exact hxy
      · exact String.lt_trans hxy (hy z hz)
    · split
      · exact h
      · next hlt hne =>
        refine List.pairwise_cons.mpr ⟨fun z hz => ?_, ih hys⟩
        rcases mem_place.mp hz with rfl | hz
        · exact Std.lt_of_le_of_ne (Std.not_lt.mp hlt) (Ne.symm hne)
        · exact hy z hz

def insert (s : Labels) (x : String) : Labels := ⟨place x s.toList, pairwise_place s.ascending⟩

def ofList (xs : List String) : Labels := xs.foldl insert empty

def union (a b : Labels) : Labels := b.toList.foldl insert a

instance : Union Labels := ⟨union⟩

@[simp] theorem not_mem_empty (x : String) : x ∉ empty := List.not_mem_nil

@[simp] theorem mem_single {x y : String} : x ∈ single y ↔ x = y := List.mem_singleton

@[simp] theorem mem_insert {s : Labels} {x y : String} : x ∈ s.insert y ↔ x = y ∨ x ∈ s := mem_place

theorem mem_foldl_insert {s : Labels} {xs : List String} {x : String} :
    x ∈ xs.foldl insert s ↔ x ∈ s ∨ x ∈ xs := by
  induction xs generalizing s with
  | nil => simp
  | cons y ys ih =>
    simp only [List.foldl_cons, ih, mem_insert, List.mem_cons, or_assoc, or_left_comm]

@[simp] theorem mem_ofList {xs : List String} {x : String} : x ∈ ofList xs ↔ x ∈ xs := by
  simp [ofList, mem_foldl_insert]

@[simp] theorem mem_union {a b : Labels} {x : String} : x ∈ a ∪ b ↔ x ∈ a ∨ x ∈ b :=
  mem_foldl_insert

end Labels

structure Trail where
  position : Position
  expected : Labels
  deriving DecidableEq

/-- What a caller is told of a failure. -/
structure FailureReport where
  furthest : Position
  expected : List String
  deriving DecidableEq, Repr

namespace Trail

def failure (position : Position) (label : String) : Trail := ⟨position, .single label⟩

def merge (a b : Trail) : Trail :=
  if a.position.index < b.position.index then b
  else if b.position.index < a.position.index then a
  else ⟨a.position, a.expected ∪ b.expected⟩

def relabel (t : Trail) (label : String) : Trail := failure t.position label

def report (t : Trail) : FailureReport := ⟨t.position, t.expected.toList⟩

/-- `none` stands for no failure so far. -/
def merge? : Option Trail → Option Trail → Option Trail
  | some a, some b => some (a.merge b)
  | a, none => a
  | none, b => b

end Trail
end FurthestFailure
