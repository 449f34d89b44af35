import FurthestFailure.Proofs.Patterns.Classes

/-! # A step of the reader with a closing parenthesis behind the text

Counts and the heads of groups are read alike, and so is any construct: the reader goes on in the same
state, with the parenthesis behind what remains unless a comment took it.
-/
namespace FurthestFailure.Regex.Reader
set_option autoImplicit false

section
variable {f : Flags} {cs cs' : List Char}

theorem decimal?_closed (h : Closed cs cs') :
    Follows ReadAlike (decimal? f cs) (decimal? f cs') := by
  have hblank : Text.isBlank ')' = false := by decide
  have hread := (h.dropWhile hblank).collect f Char.isDigit (by decide) false
  rw [decimal?, decimal?]
  generalize collect f Char.isDigit false (cs.dropWhile Text.isBlank) = r at hread
  generalize collect f Char.isDigit false (cs'.dropWhile Text.isBlank) = r' at hread
  obtain ⟨hrest⟩ := hread
  simp only
  split
  · exact .none
  · exact .some ⟨hrest.dropWhile hblank⟩

/-- The counts after the least one and a comma. -/
def countsTo? (f : Flags) (min : Nat) : List Char → Option (Nat × Option Nat × List Char)
  | '}' :: rest => some (min, none, skip f rest)
  | rest => do
    let (max, rest) ← decimal? f rest
    match rest with
    | '}' :: rest => if min ≤ max then return (min, some max, skip f rest) else none
    | _ => none

/-- The counts after the least one. -/
def countsFrom? (f : Flags) (min : Nat) : List Char → Option (Nat × Option Nat × List Char)
  | '}' :: rest => some (min, some min, skip f rest)
  | ',' :: rest => countsTo? f min (skip f rest)
  | _ => none

theorem counts?_eq (cs : List Char) : counts? f cs =
    (do let (min, rest) ← decimal? f (skip f cs); countsFrom? f min rest) := rfl

theorem countsTo?_closed (min : Nat) (h : Closed cs cs') :
    Follows ReadPairAlike (countsTo? f min cs) (countsTo? f min cs') := by
  rcases h.head_cases '}' (by decide) with ⟨rest, rest', rfl, rfl, hrest⟩ | ⟨hne, hne'⟩
  · exact .some ⟨hrest.skip f⟩
  · rw [countsTo?.eq_2 f min cs hne, countsTo?.eq_2 f min cs' hne']
    apply Follows.bindOption (decimal?_closed h)
    rintro _ _ @⟨max, rest, rest', hrest⟩
    simp only
    split
    · next more =>
      obtain ⟨more', rfl, hmore⟩ := hrest.exists_of_cons
      simp only
      split
      · exact .some ⟨hmore.skip f⟩
      · exact .none
    · exact .none

theorem countsFrom?_closed (min : Nat) (h : Closed cs cs') :
    Follows ReadPairAlike (countsFrom? f min cs) (countsFrom? f min cs') := by
  rw [countsFrom?.eq_def]
  split
  · next more =>
    obtain ⟨more', rfl, hmore⟩ := h.exists_of_cons
    exact .some ⟨hmore.skip f⟩
  · next more =>
    obtain ⟨more', rfl, hmore⟩ := h.exists_of_cons
    exact countsTo?_closed min (hmore.skip f)
  · exact .none

theorem counts?_closed (h : Closed cs cs') :
    Follows ReadPairAlike (counts? f cs) (counts? f cs') := by
  rw [counts?_eq, counts?_eq]
  apply Follows.bindOption (decimal?_closed (h.skip f))
  rintro _ _ ⟨hrest⟩
  exact countsFrom?_closed _ hrest

theorem flagsHead?_closed {seen : List Char} {value : Bool} (h : Closed cs cs') :
    Follows ReadAlike (flagsHead? seen f value cs) (flagsHead? seen f value cs') := by
  rcases h with rfl | rfl
  · induction cs generalizing seen f value with
    | nil => exact .none
    | cons c cs ih =>
      simp only [List.cons_append, flagsHead?]
      split
      · split
        · exact .none
        · split
          · exact .some ⟨.behind cs⟩
          · split
            · exact .none
            · exact .some ⟨.behind cs⟩
      · split
        · exact .none
        · split
          · exact ih
          · exact .bindSame fun f => ih
  · exact .refl (fun _ => ⟨.refl _⟩) _

/-- A name, by what follows it. -/
def nameBefore? (name cs : List Char) : Option (String × List Char) :=
  match name, cs with
  | first :: others, '>' :: rest =>
    if isNameStart first && others.all isNameChar then some (.ofList name, rest) else none
  | _, _ => none

theorem groupName?_eq (cs : List Char) : groupName? cs =
    nameBefore? (cs.takeWhile (· != '>')) (cs.drop (cs.takeWhile (· != '>')).length) := rfl

theorem groupName?_closed (h : Closed cs cs') :
    Follows ReadAlike (groupName? cs) (groupName? cs') := by
  rw [groupName?_eq, groupName?_eq]
  rcases h.drop_takeWhile (p := (· != '>')) (by decide) with
    ⟨hdrop, -⟩ | ⟨htake, c, more, more', hmore, hdrop, hdrop'⟩
  · rw [hdrop]
    cases cs.takeWhile (· != '>') <;> exact .none
  · rw [hdrop, hdrop', htake]
    cases cs.takeWhile (· != '>') with
    | nil => exact .none
    | cons first others =>
      by_cases hc : c = '>'
      · subst hc
        simp only [nameBefore?]
        split
        · exact .some ⟨hmore⟩
        · exact .none
      · rw [nameBefore?]
        · exact .none
        · simp [hc]

end

namespace State
variable {s : State} {cs cs' : List Char}

/-- A named group, behind the bracket that opens its name. -/
def named? (s : State) (cs : List Char) : Option (State × List Char) := do
  let (name, rest) ← groupName? cs
  if s.names.contains name then none
  else return ({ s.openIndexed with names := name :: s.names }, rest)

/-- Flags, or a group with flags, behind the question mark. -/
def flagged? (s : State) (cs : List Char) : Option (State × List Char) := do
  match ← flagsHead? [] s.flags true cs with
  | (.flags f, rest) => return ({ s with flags := f, items := .flags :: s.items }, rest)
  | (.group f index, rest) => return (s.openGroup index f, rest)

/-- What follows the bracket of a group. -/
def headed? (s : State) : List Char → Option (State × List Char)
  | '?' :: 'P' :: '<' :: cs => s.named? cs
  | '?' :: '<' :: '=' :: _ | '?' :: '<' :: '!' :: _ => none
  | '?' :: '<' :: cs => s.named? cs
  | '?' :: cs => s.flagged? cs
  | cs => some (s.openIndexed, cs)

theorem groupHead?_eq (s : State) (cs : List Char) : s.groupHead? cs = s.headed? cs := rfl

theorem named?_closed (h : Closed cs cs') : Follows ReadAlike (s.named? cs) (s.named? cs') := by
  apply Follows.bindOption (groupName?_closed h)
  rintro _ _ ⟨hrest⟩
  simp only
  split
  · exact .none
  · exact .some ⟨hrest⟩

theorem flagged?_closed (h : Closed cs cs') :
    Follows ReadAlike (s.flagged? cs) (s.flagged? cs') := by
  apply Follows.bindOption (flagsHead?_closed h)
  rintro _ _ @⟨head, rest, rest', hrest⟩
  cases head with
  | flags f => exact .some ⟨hrest⟩
  | group f index => exact .some ⟨hrest⟩

theorem groupHead?_closed (h : Closed cs cs') :
    Follows ReadAlike (s.groupHead? cs) (s.groupHead? cs') := by
  rw [groupHead?_eq, groupHead?_eq, headed?.eq_def s cs]
  -- None of the alternatives before begins the second text either.
  split
  · obtain ⟨_, rfl, hmore⟩ := h.exists_of_cons
    obtain ⟨_, rfl, hrest⟩ := hmore.exists_of_cons
    obtain ⟨_, rfl, hname⟩ := hrest.exists_of_cons
    exact named?_closed hname
  · exact .none
  · exact .none
  · next hahead hbehind =>
    obtain ⟨_, rfl, hmore⟩ := h.exists_of_cons
    obtain ⟨_, rfl, hname⟩ := hmore.exists_of_cons
    rw [headed?.eq_4]
    · exact named?_closed hname
    · exact hname.ne_append ['='] (by decide) hahead
    · exact hname.ne_append ['!'] (by decide) hbehind
  · next hnamed hahead hbehind hangle =>
    obtain ⟨_, rfl, hmore⟩ := h.exists_of_cons
    rw [headed?.eq_5]
    · exact flagged?_closed hmore
    · exact hmore.ne_append ['P', '<'] (by decide) hnamed
    · exact hmore.ne_append ['<', '='] (by decide) hahead
    · exact hmore.ne_append ['<', '!'] (by decide) hbehind
    · exact hmore.ne_append ['<'] (by decide) hangle
  · next hmark =>
    have hmark' := h.ne_append ['?'] (by decide) hmark
    rw [headed?.eq_6]
    · exact .some ⟨h⟩
    all_goals exact fun _ => hmark' _

theorem lazyMark_closed (h : Closed cs cs') : ReadAlike (lazyMark cs) (lazyMark cs') := by
  rcases h.head_cases '?' (by decide) with ⟨rest, rest', rfl, rfl, hrest⟩ | ⟨hne, hne'⟩
  · exact ⟨hrest⟩
  · rw [lazyMark.eq_2 cs hne, lazyMark.eq_2 cs' hne']
    exact ⟨h⟩

theorem counted_closed (min : Nat) (max : Option Nat) (h : Closed cs cs') :
    Follows ReadAlike
      (do let (isLazy, rest) := lazyMark cs; return (← s.repeat? min max isLazy, rest))
      (do let (isLazy, rest) := lazyMark cs'; return (← s.repeat? min max isLazy, rest)) := by
  have hmark := lazyMark_closed h
  generalize lazyMark cs = r at hmark
  generalize lazyMark cs' = r' at hmark
  obtain ⟨hrest⟩ := hmark
  exact .bindSame fun _ => .some ⟨hrest⟩

theorem step?_closed (h : Closed cs cs') : Follows ReadAlike (s.step? cs) (s.step? cs') := by
  cases cs with
  | nil => exact .none
  | cons c cs =>
    obtain ⟨cs', rfl, hcs⟩ := h.exists_of_cons
    simp only [step?]
    split
    · exact groupHead?_closed (hcs.skip _)
    · exact .bindSame fun _ => .some ⟨hcs⟩
    · exact .some ⟨hcs⟩
    · apply Follows.bindOption (bracketed?_closed hcs)
      rintro _ _ ⟨hrest⟩
      exact .some ⟨hrest⟩
    · exact counted_closed 0 (some 1) hcs
    · exact counted_closed 0 none hcs
    · exact counted_closed 1 none hcs
    · apply Follows.bindOption (counts?_closed hcs)
      rintro _ _ ⟨hrest⟩
      exact counted_closed _ _ hrest
    · exact .bindSame fun _ => .some ⟨hcs⟩
    · exact .some ⟨hcs⟩
    · exact .some ⟨hcs⟩
    · apply Follows.bindOption (escape?_closed hcs)
      rintro _ _ @⟨e, rest, rest', hrest⟩
      cases e with
      | char c => exact .some ⟨hrest⟩
      | cls cls => exact .some ⟨hrest⟩
      | look l => exact .some ⟨hrest⟩
    · exact .some ⟨hcs⟩

end State
end FurthestFailure.Regex.Reader
