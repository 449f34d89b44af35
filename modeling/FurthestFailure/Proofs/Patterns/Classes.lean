import FurthestFailure.Proofs.Patterns.Closing

/-! # Reading on inside a bracketed class

A class is read alike with a closing parenthesis behind the text. Of what follows an item only the next
character decides how to read on, and where that is missing in the first text, there is nothing to read.
-/
namespace FurthestFailure.Regex.Reader
set_option autoImplicit false

variable {f : Flags} {cs cs' : List Char} {c : Char}

theorem classItem?_closed (h : Closed cs cs') :
    Follows ReadAlike (classItem? f cs) (classItem? f cs') := by
  cases cs with
  | nil => exact .none
  | cons c cs =>
    obtain ⟨cs', rfl, hcs⟩ := h.exists_of_cons
    by_cases hc : c = '\\'
    · subst hc
      exact escape?_closed hcs
    · rw [classItem?, classItem?] <;> try exact hc
      exact .some ⟨hcs⟩

theorem setOperator?_closed (h : Closed cs cs') :
    Option.Rel ReadAlike (setOperator? cs) (setOperator? cs') := by
  rw [setOperator?.eq_def cs]
  split
  case h_4 hinter hdiff hsym =>
    rw [setOperator?.eq_4]
    · exact .none
    · exact h.ne_append ['&', '&'] (by decide) hinter
    · exact h.ne_append ['-', '-'] (by decide) hdiff
    · exact h.ne_append ['~', '~'] (by decide) hsym
  all_goals
    obtain ⟨_, rfl, hmore⟩ := h.exists_of_cons
    obtain ⟨_, rfl, hrest⟩ := hmore.exists_of_cons
    exact .some ⟨hrest⟩

/-- Whether the text begins with a caret, and what follows that. -/
def caret (f : Flags) : List Char → Bool × List Char
  | '^' :: cs => (true, skip f cs)
  | cs => (false, cs)

theorem caret_closed (h : Closed cs cs') : ReadAlike (caret f cs) (caret f cs') := by
  rcases h.head_cases '^' (by decide) with ⟨rest, rest', rfl, rfl, hrest⟩ | ⟨hne, hne'⟩
  · exact ⟨hrest.skip f⟩
  · rw [caret.eq_2 f cs hne, caret.eq_2 f cs' hne']
    exact ⟨h⟩

/-- The class of the name at the front, up to a colon and a bracket. -/
def classOfName? (negated : Bool) (cs : List Char) : Option (Bool × CharClass × List Char) :=
  match cs.drop (cs.takeWhile (· != ':')).length with
  | ':' :: ']' :: rest => do
    return (negated, .ofRanges (← asciiRanges? (String.ofList (cs.takeWhile (· != ':')))), rest)
  | _ => none

theorem namedClass?_colon (cs : List Char) :
    namedClass? (':' :: cs) = classOfName? (caret {} cs).1 (caret {} cs).2 := rfl

theorem classOfName?_closed (negated : Bool) (h : Closed cs cs') :
    Option.Rel ReadPairAlike
      (classOfName? negated cs) (classOfName? negated cs') := by
  rw [classOfName?, classOfName?]
  rcases h.drop_takeWhile (p := (· != ':')) (by decide) with
    ⟨hdrop, hdrop'⟩ | ⟨htake, c, more, more', hmore, hdrop, hdrop'⟩
  · rw [hdrop, hdrop']
    exact .none
  · rw [hdrop, hdrop', htake]
    split
    · next rest heq =>
      cases heq
      obtain ⟨rest', rfl, hrest⟩ := hmore.exists_of_cons
      cases asciiRanges? (String.ofList (cs.takeWhile (· != ':'))) with
      | none => exact .none
      | some ranges => exact .some ⟨hrest⟩
    · next hne =>
      split
      · next rest' heq =>
        cases heq
        obtain ⟨rest, rfl, -⟩ := hmore.exists_of_cons' (by decide)
        exact (hne _ rfl).elim
      · exact .none

theorem namedClass?_closed (h : Closed cs cs') :
    Option.Rel ReadPairAlike (namedClass? cs) (namedClass? cs') := by
  cases cs with
  | nil => rcases h with rfl | rfl <;> exact .none
  | cons x cs =>
    obtain ⟨cs', rfl, hcs⟩ := h.exists_of_cons
    by_cases hx : x = ':'
    · subst hx
      have hread := caret_closed (f := {}) hcs
      rw [namedClass?_colon, namedClass?_colon]
      generalize caret {} cs = r at hread
      generalize caret {} cs' = r' at hread
      obtain ⟨hrest⟩ := hread
      exact classOfName?_closed _ hrest
    · rw [namedClass?, namedClass?] <;> first | exact .none | simpa using hx

theorem afterBlanks?_append {markSeen : Bool} (h : afterBlanks? markSeen cs = some c)
    (behind : List Char) : afterBlanks? markSeen (cs ++ behind) = some c := by
  induction cs generalizing markSeen with
  | nil => cases h
  | cons x cs ih =>
    simp only [List.cons_append, afterBlanks?] at h ⊢
    split at h
    · next hblank =>
      rw [if_pos hblank]
      exact ih h
    · next hblank =>
      rw [if_neg hblank]
      split at h
      · next hmark =>
        rw [if_pos hmark]
        exact ih h
      · next hmark =>
        rw [if_neg hmark]
        exact h

theorem peek?_closed (h : Closed cs cs') (hpeek : peek? f cs = some c) : peek? f cs' = some c := by
  rcases h with rfl | rfl
  · rw [peek?] at hpeek ⊢
    split at hpeek
    · next hblanks =>
      rw [if_pos hblanks]
      exact afterBlanks?_append hpeek _
    · next hblanks =>
      rw [if_neg hblanks]
      simp [hpeek]
  · exact hpeek

theorem dropBlanks_of_afterBlanks? {markSeen inComment : Bool} (h : afterBlanks? markSeen cs = none)
    (hcomment : inComment = true → markSeen = true) : dropBlanks inComment cs = [] := by
  induction cs generalizing markSeen inComment with
  | nil => rfl
  | cons x cs ih =>
    rw [afterBlanks?] at h
    rw [dropBlanks]
    split at h
    · next hblank =>
      rw [if_pos hblank]
      split
      · next hin => exact ih h fun _ => hcomment hin
      · exact ih h (by simp)
    · next hblank =>
      split at h
      · next hmark =>
        simp only [Bool.and_eq_true, Bool.not_eq_true', beq_iff_eq] at hmark
        obtain ⟨rfl, rfl⟩ := hmark
        have hin : inComment = false := by simpa using hcomment
        rw [hin]
        exact ih h fun _ => rfl
      · cases h

theorem skip_of_peek? (h : peek? f cs = none) : skip f cs = [] := by
  rw [peek?] at h
  rw [skip]
  split at h
  · next hblanks =>
    rw [if_pos hblanks]
    exact dropBlanks_of_afterBlanks? h (by simp)
  · next hblanks =>
    rw [if_neg hblanks]
    exact List.head?_eq_none_iff.mp h

/-- An item that stands for itself, not for the end of a range. -/
def classAlone? (f : Flags) (rest : List Char) : Escape → Option (CharClass × List Char)
  | .char c => do return (← rangeClass? f c c, rest)
  | .cls cls => some (cls, rest)
  | .look _ => none

theorem classAlone?_closed (first : Escape) (h : Closed cs cs') :
    Follows ReadAlike (classAlone? f cs first) (classAlone? f cs' first) := by
  cases first with
  | char c => exact .bindSame fun _ => .some ⟨h⟩
  | cls cls => exact .some ⟨h⟩
  | look l => exact .none

/-- What an item stands for, by what follows it. -/
def classFrom? (f : Flags) (first : Escape) : List Char → Option (CharClass × List Char)
  | [] => none
  | '-' :: more =>
    if peek? f more == some ']' || peek? f more == some '-' then classAlone? f ('-' :: more) first
    else do
      match first, ← classItem? f (skip f more) with
      | .char low, (.char high, rest) => do return (← rangeClass? f low high, rest)
      | _, _ => none
  | rest => classAlone? f rest first

theorem classRange?_eq (cs : List Char) : classRange? f cs =
    (do let (first, rest) ← classItem? f cs; classFrom? f first (skip f rest)) := by
  rfl

theorem classFrom?_closed (first : Escape) (h : Closed cs cs') :
    Follows ReadAlike (classFrom? f first cs) (classFrom? f first cs') := by
  cases cs with
  | nil => exact .none
  | cons x more =>
    obtain ⟨more', rfl, hmore⟩ := h.exists_of_cons
    by_cases hx : x = '-'
    · subst hx
      rw [classFrom?, classFrom?]
      cases hpeek : peek? f more with
      | none =>
        rw [skip_of_peek? hpeek]
        exact .none
      | some c =>
        rw [peek?_closed hmore hpeek]
        split
        · exact classAlone?_closed first h
        · apply Follows.bindOption (classItem?_closed (hmore.skip f))
          rintro _ _ @⟨last, rest, rest', hrest⟩
          cases first with
          | char low =>
            cases last with
            | char high => exact .bindSame fun _ => .some ⟨hrest⟩
            | cls cls => exact .none
            | look l => exact .none
          | cls cls => exact .none
          | look l => exact .none
    · rw [classFrom?, classFrom?]
      · exact classAlone?_closed first h
      all_goals simp [hx]

theorem classRange?_closed (h : Closed cs cs') :
    Follows ReadAlike (classRange? f cs) (classRange? f cs') := by
  rw [classRange?_eq, classRange?_eq]
  apply Follows.bindOption (classItem?_closed h)
  rintro _ _ ⟨hrest⟩
  exact classFrom?_closed _ (hrest.skip f)

theorem leadingHyphens_closed (h : Closed cs cs') :
    ReadAlike (leadingHyphens f cs) (leadingHyphens f cs') := by
  fun_induction leadingHyphens f cs generalizing cs' with
  | case1 cs count rest hread ih =>
    obtain ⟨more, rfl, hmore⟩ := h.exists_of_cons
    have hrest := ih (hmore.skip f)
    rw [leadingHyphens]
    rw [hread] at hrest
    generalize leadingHyphens f (skip f more) = r at hrest
    obtain ⟨hrest⟩ := hrest
    exact ⟨hrest⟩
  | case2 cs hne =>
    rw [leadingHyphens.eq_2 f cs' (h.ne_append ['-'] (by decide) hne)]
    exact ⟨h⟩

/-- The open class after its negation and hyphens. -/
def openAfter (f : Flags) (negated : Bool) (hyphens : Nat) (cs : List Char) :
    OpenClass × List Char :=
  if hyphens = 0 then
    match cs with
    | ']' :: rest => (({ negated } : OpenClass).add (.one ']') 0, skip f rest)
    | _ => ({ negated }, cs)
  else ({ negated, operand := .one '-', items := hyphens }, cs)

theorem openClass_eq (cs : List Char) : openClass f cs =
    openAfter f (caret f (skip f cs)).1 (leadingHyphens f (caret f (skip f cs)).2).1
      (leadingHyphens f (caret f (skip f cs)).2).2 := rfl

theorem openAfter_closed (negated : Bool) (hyphens : Nat) (h : Closed cs cs') :
    ReadAlike (openAfter f negated hyphens cs) (openAfter f negated hyphens cs') := by
  unfold openAfter
  split
  · rcases h.head_cases ']' (by decide) with ⟨rest, rest', rfl, rfl, hrest⟩ | ⟨hne, hne'⟩
    · exact ⟨hrest.skip f⟩
    · split
      · exact (hne _ rfl).elim
      · exact ⟨h⟩
  · exact ⟨h⟩

theorem openClass_closed (h : Closed cs cs') : ReadAlike (openClass f cs) (openClass f cs') := by
  have hcaret := caret_closed (f := f) (h.skip f)
  rw [openClass_eq, openClass_eq]
  generalize caret f (skip f cs) = r at hcaret
  generalize caret f (skip f cs') = r' at hcaret
  rcases hcaret with @⟨negated, rest, rest', hrest⟩
  have hhyphens := leadingHyphens_closed (f := f) hrest
  generalize leadingHyphens f rest = r at hhyphens
  generalize leadingHyphens f rest' = r' at hhyphens
  obtain ⟨hmore⟩ := hhyphens
  exact openAfter_closed negated _ hmore

/-- What is read next inside a bracket, and then what `next` reads. -/
def classNext? (f : Flags)
    (next : OpenClass → List OpenClass → List Char → Option (NestedClass × List Char))
    (o : OpenClass) (outer : List OpenClass) : List Char → Option (NestedClass × List Char)
  | [] => none
  | '[' :: cs =>
    match namedClass? cs with
    | some (negated, cls, rest) => do
      next (o.add (← f.negated? negated (f.folded cls)) 0) outer rest
    | none => next (openClass f cs).1 (o :: outer) (openClass f cs).2
  | ']' :: cs => do
    let closed ← o.close? f
    match outer with
    | [] => return (closed, cs)
    | p :: outer => next (p.add closed.cls closed.depth) outer cs
  | cs =>
    match setOperator? cs with
    | some (op, rest) => next (o.operator f op) outer rest
    | none => do
      let (cls, rest) ← classRange? f cs
      next (o.add cls 0) outer rest

theorem classBody?_succ (steps : Nat) (o : OpenClass) (outer : List OpenClass) (cs : List Char) :
    classBody? f (steps + 1) o outer cs =
      classNext? f (classBody? f steps) o outer (skip f cs) := rfl

theorem classNext?_closed
    {next next' : OpenClass → List OpenClass → List Char → Option (NestedClass × List Char)}
    (hnext : ∀ o outer {cs cs'}, Closed cs cs' →
      Follows ReadAlike (next o outer cs) (next' o outer cs'))
    (o : OpenClass) (outer : List OpenClass) (h : Closed cs cs') :
    Follows ReadAlike (classNext? f next o outer cs) (classNext? f next' o outer cs') := by
  cases cs with
  | nil => exact .none
  | cons x more =>
    obtain ⟨more', rfl, hmore⟩ := h.exists_of_cons
    by_cases hopen : x = '['
    · subst hopen
      rw [classNext?, classNext?]
      have hnamed := namedClass?_closed hmore
      generalize namedClass? more = r at hnamed
      generalize namedClass? more' = r' at hnamed
      cases hnamed with
      | none =>
        have hinner := openClass_closed (f := f) hmore
        generalize openClass f more = r at hinner
        generalize openClass f more' = r' at hinner
        obtain ⟨hrest⟩ := hinner
        exact hnext _ _ hrest
      | some hread =>
        obtain ⟨hrest⟩ := hread
        exact .bindSame fun _ => hnext _ _ hrest
    · by_cases hclose : x = ']'
      · subst hclose
        rw [classNext?, classNext?]
        apply Follows.bindSame
        intro closed
        cases outer with
        | nil => exact .some ⟨hmore⟩
        | cons p outer => exact hnext _ _ hmore
      · rw [classNext?, classNext?]
        · have hop := setOperator?_closed h
          generalize setOperator? (x :: more) = r at hop
          generalize setOperator? (x :: more') = r' at hop
          cases hop with
          | none =>
            apply Follows.bindOption (classRange?_closed h)
            rintro _ _ ⟨hrest⟩
            exact hnext _ _ hrest
          | some hread =>
            obtain ⟨hrest⟩ := hread
            exact hnext _ _ hrest
        all_goals simp [hopen, hclose]

theorem classBody?_closed {steps steps' : Nat} (hsteps : steps ≤ steps') (o : OpenClass)
    (outer : List OpenClass) (h : Closed cs cs') :
    Follows ReadAlike (classBody? f steps o outer cs) (classBody? f steps' o outer cs') := by
  induction steps generalizing steps' o outer cs cs' with
  | zero => exact .none
  | succ steps ih =>
    obtain ⟨more, rfl⟩ := Nat.exists_eq_add_of_le' hsteps
    rw [← Nat.add_assoc, classBody?_succ, classBody?_succ]
    exact classNext?_closed (fun o outer _ _ h => ih (Nat.le_add_left _ _) o outer h) o outer
      (h.skip f)

theorem bracketed?_closed (h : Closed cs cs') :
    Follows ReadAlike (bracketed? f cs) (bracketed? f cs') := by
  have hopen := openClass_closed (f := f) h
  rw [bracketed?, bracketed?]
  generalize openClass f cs = r at hopen
  generalize openClass f cs' = r' at hopen
  rcases hopen with @⟨o, rest, rest', hrest⟩
  apply classBody?_closed _ o [] hrest
  rcases hrest with rfl | rfl
  · simp
  · exact Nat.le_refl _

end FurthestFailure.Regex.Reader
