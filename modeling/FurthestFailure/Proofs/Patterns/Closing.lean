import FurthestFailure.Proofs.Correspondence
import FurthestFailure.Regex.Reader

/-! # Reading on with a closing parenthesis behind the text

What is read of a text is also read of it with a closing parenthesis behind, and what remains then is
the same with the parenthesis behind. Only a comment at the end of the text takes the parenthesis too,
and then the same remains in both.
-/
namespace FurthestFailure
set_option autoImplicit false

namespace Follows
variable {α β γ δ : Type} {R : α → β → Prop} {S : γ → δ → Prop}

theorem refl {R : α → α → Prop} (h : ∀ a, R a a) (x : Option α) : Follows R x x :=
  fun a ha => ⟨a, ha, h a⟩

theorem bindOption {x : Option α} {y : Option β} {f : α → Option γ} {g : β → Option δ}
    (h : Follows R x y) (hfg : ∀ a b, R a b → Follows S (f a) (g b)) :
    Follows S (x >>= f) (y >>= g) := by
  intro c hc
  obtain ⟨a, hx, hf⟩ := Option.bind_eq_some_iff.mp hc
  obtain ⟨b, hy, hab⟩ := h hx
  obtain ⟨d, hd, hcd⟩ := hfg a b hab hf
  exact ⟨d, Option.bind_eq_some_iff.mpr ⟨b, hy, hd⟩, hcd⟩

/-- Both go on with the same value, if there is one. -/
theorem bindSame {x : Option α} {f : α → Option γ} {g : α → Option δ}
    (hfg : ∀ a, Follows S (f a) (g a)) : Follows S (x >>= f) (x >>= g) :=
  bindOption (R := Eq) (refl (fun _ => rfl) x) fun _ _ h => h ▸ hfg _

end Follows

namespace Regex.Reader

/-- The second text is the first with a closing parenthesis behind it, or the parenthesis is gone. -/
def Closed (cs cs' : List Char) : Prop := cs' = cs ++ [')'] ∨ cs' = cs

/-- The same was read, and what remains is closed by a parenthesis or not. -/
inductive ReadAlike {α : Type} : α × List Char → α × List Char → Prop
  | intro {a : α} {rest rest' : List Char} (h : Closed rest rest') : ReadAlike (a, rest) (a, rest')

/-- As `ReadAlike`, where two things were read. -/
inductive ReadPairAlike {α β : Type} : α × β × List Char → α × β × List Char → Prop
  | intro {a : α} {b : β} {rest rest' : List Char} (h : Closed rest rest') :
    ReadPairAlike (a, b, rest) (a, b, rest')

variable {f : Flags} {cs cs' : List Char} {c : Char}

namespace Closed

theorem refl (cs : List Char) : Closed cs cs := .inr rfl

theorem behind (cs : List Char) : Closed cs (cs ++ [')']) := .inl rfl

theorem exists_of_cons (h : Closed (c :: cs) cs') : ∃ rest, cs' = c :: rest ∧ Closed cs rest := by
  rcases h with rfl | rfl
  · exact ⟨cs ++ [')'], rfl, behind cs⟩
  · exact ⟨cs, rfl, refl cs⟩

/-- What begins the second text, if not the parenthesis, begins the first. -/
theorem exists_of_cons' (h : Closed cs (c :: cs')) (hc : c ≠ ')') :
    ∃ rest, cs = c :: rest ∧ Closed rest cs' := by
  rcases h with h | rfl
  · cases cs with
    | nil =>
      cases h
      exact absurd rfl hc
    | cons x cs =>
      cases h
      exact ⟨cs, rfl, behind cs⟩
  · exact ⟨cs', rfl, refl cs'⟩

/-- What the first text does not begin with, without a parenthesis, the second does not begin with. -/
theorem ne_append (front : List Char) (hfront : ')' ∉ front) (h : Closed cs cs')
    (hne : ∀ rest, cs ≠ front ++ rest) (rest : List Char) : cs' ≠ front ++ rest := by
  induction front generalizing cs cs' with
  | nil => exact (hne cs rfl).elim
  | cons c front ih =>
    rintro rfl
    simp only [List.mem_cons, not_or] at hfront
    obtain ⟨more, rfl, hmore⟩ := h.exists_of_cons' (Ne.symm hfront.1)
    exact ih hfront.2 hmore (fun rest heq => hne rest (congrArg (c :: ·) heq)) rfl

/-- Both texts begin with the character, if it is not the parenthesis, or neither does. -/
theorem head_cases (c : Char) (hc : c ≠ ')') (h : Closed cs cs') :
    (∃ rest rest', cs = c :: rest ∧ cs' = c :: rest' ∧ Closed rest rest') ∨
      (∀ rest, cs ≠ c :: rest) ∧ ∀ rest, cs' ≠ c :: rest := by
  by_cases hhead : ∃ rest, cs = c :: rest
  · obtain ⟨rest, rfl⟩ := hhead
    obtain ⟨rest', rfl, hrest⟩ := h.exists_of_cons
    exact .inl ⟨rest, rest', rfl, rfl, hrest⟩
  · have hne : ∀ rest, cs ≠ c :: rest := not_exists.mp hhead
    exact .inr ⟨hne, h.ne_append [c] (by simpa using hc.symm) hne⟩

theorem dropBlanks (inComment : Bool) (h : Closed cs cs') :
    Closed (dropBlanks inComment cs) (dropBlanks inComment cs') := by
  rcases h with rfl | rfl
  · induction cs generalizing inComment with
    | nil =>
      cases inComment with
      | true => exact .inr rfl
      | false => exact .inl (by decide)
    | cons c cs ih =>
      simp only [List.cons_append, Reader.dropBlanks]
      split
      · exact ih _
      · split
        · exact ih _
        · split
          · exact ih _
          · exact behind (c :: cs)
  · exact refl _

theorem skip (f : Flags) (h : Closed cs cs') : Closed (skip f cs) (skip f cs') := by
  rw [Reader.skip, Reader.skip]
  split
  · exact h.dropBlanks false
  · exact h

theorem dropWhile {p : Char → Bool} (hp : p ')' = false) (h : Closed cs cs') :
    Closed (cs.dropWhile p) (cs'.dropWhile p) := by
  rcases h with rfl | rfl
  · left
    induction cs with
    | nil => simp [hp]
    | cons c cs ih =>
      simp only [List.cons_append, List.dropWhile_cons, ih]
      split <;> rfl
  · exact refl _

theorem collect (f : Flags) (accepts : Char → Bool) (haccepts : accepts ')' = false)
    (inComment : Bool) (h : Closed cs cs') :
    ReadAlike (collect f accepts inComment cs) (collect f accepts inComment cs') := by
  rcases h with rfl | rfl
  · induction cs generalizing inComment with
    | nil =>
      cases inComment with
      | true => exact ⟨.refl []⟩
      | false =>
        have hblank : Text.isBlank ')' = false := by decide
        simpa [Reader.collect, haccepts, hblank] using ReadAlike.intro (behind [])
    | cons c cs ih =>
      simp only [List.cons_append, Reader.collect]
      split
      · exact ih _
      · split
        · have hfound := ih false
          generalize Reader.collect f accepts false cs = found at hfound
          generalize Reader.collect f accepts false (cs ++ [')']) = found' at hfound
          obtain ⟨hrest⟩ := hfound
          exact ⟨hrest⟩
        · split
          · exact ih _
          · split
            · exact ih _
            · exact ⟨behind (c :: cs)⟩
  · exact ⟨refl _⟩

/-- Where a run of characters ends inside the text, it ends there too with a parenthesis behind. -/
theorem drop_takeWhile {p : Char → Bool} (hp : p ')' = true) (h : Closed cs cs') :
    (cs.drop (cs.takeWhile p).length = [] ∧ cs'.drop (cs'.takeWhile p).length = []) ∨
      (cs'.takeWhile p = cs.takeWhile p ∧ ∃ c rest rest', Closed rest rest' ∧
        cs.drop (cs.takeWhile p).length = c :: rest ∧
        cs'.drop (cs'.takeWhile p).length = c :: rest') := by
  rcases h with rfl | rfl
  · induction cs with
    | nil => simp [hp]
    | cons c cs ih =>
      by_cases hc : p c
      · simpa [hc] using ih
      · right
        simp only [List.cons_append, List.takeWhile_cons, hc]
        exact ⟨rfl, c, cs, _, behind cs, rfl, rfl⟩
  · cases hdrop : cs'.drop (cs'.takeWhile p).length with
    | nil => exact .inl ⟨rfl, rfl⟩
    | cons c rest => exact .inr ⟨rfl, c, rest, rest, refl rest, rfl, rfl⟩

end Closed

theorem hexDigits?_closed (n : Nat) (h : Closed cs cs') :
    Follows ReadAlike (hexDigits? f n cs) (hexDigits? f n cs') := by
  induction n generalizing cs cs' with
  | zero => exact .some ⟨h⟩
  | succ n ih =>
    cases cs with
    | nil => exact .none
    | cons c cs =>
      obtain ⟨cs', rfl, hcs⟩ := h.exists_of_cons
      apply Follows.bindOption (ih (hcs.skip f))
      rintro _ _ ⟨hrest⟩
      exact .some ⟨hrest⟩

theorem hexChar?_closed (width : Nat) (h : Closed cs cs') :
    Follows ReadAlike (hexChar? f (width + 1) cs) (hexChar? f (width + 1) cs') := by
  have hskip := h.skip f
  rw [hexChar?, hexChar?]
  generalize skip f cs = more at hskip
  generalize skip f cs' = more' at hskip
  rcases hskip.head_cases '{' (by decide) with ⟨more, more', rfl, rfl, hmore⟩ | ⟨hne, hne'⟩
  · have hfound := (hmore.skip f).collect f (hexDigit? · |>.isSome) (by decide) false
    simp only
    generalize collect f (hexDigit? · |>.isSome) false (skip f more) = found at hfound
    generalize collect f (hexDigit? · |>.isSome) false (skip f more') = found' at hfound
    rcases hfound with @⟨ds, tail, tail', htail⟩
    split
    · exact .none
    · next _ rest hds heq =>
      cases heq
      obtain ⟨rest', rfl, hrest⟩ := htail.exists_of_cons
      cases ds with
      | nil => exact (hds rfl).elim
      | cons d ds => exact .bindSame fun c => .some ⟨hrest.skip f⟩
    · exact .none
  · split
    · exact (hne _ rfl).elim
    · apply Follows.bindOption (hexDigits?_closed _ hskip)
      rintro _ _ ⟨htail⟩
      apply Follows.bindSame
      intro c
      split
      · exact .none
      · exact .some ⟨htail⟩

theorem boundary?_closed (h : Closed cs cs') :
    Follows ReadAlike (boundary? f cs) (boundary? f cs') := by
  rcases h.head_cases '{' (by decide) with ⟨more, more', rfl, rfl, hmore⟩ | ⟨hne, hne'⟩
  · have hfound := (hmore.skip f).collect f (fun c => c.isAlpha || c == '-') (by decide) false
    have hskip := hmore.skip f
    simp only [boundary?]
    generalize collect f (fun c => c.isAlpha || c == '-') false (skip f more) = found at hfound
    generalize collect f (fun c => c.isAlpha || c == '-') false (skip f more') = found' at hfound
    generalize skip f more = next at hskip
    generalize skip f more' = next' at hskip
    rcases hfound with @⟨name, tail, tail', htail⟩
    cases next with
    | nil => exact .none
    | cons x next =>
      obtain ⟨next', rfl, -⟩ := hskip.exists_of_cons
      split
      · next heq => cases heq
      · next heq _ =>
        cases heq
        exact .some ⟨h⟩
      · next _ rest hname heq _ =>
        cases heq
        obtain ⟨rest', rfl, hrest⟩ := htail.exists_of_cons
        cases name with
        | nil => exact (hname rfl).elim
        | cons n name => exact .bindSame fun _ => .some ⟨hrest⟩
      · exact .none
  · rw [boundary?.eq_2 f cs hne, boundary?.eq_2 f cs' hne']
    exact .some ⟨h⟩

theorem escape?_closed (h : Closed cs cs') :
    Follows ReadAlike (escape? f cs) (escape? f cs') := by
  cases cs with
  | nil => exact .none
  | cons c cs =>
    obtain ⟨cs', rfl, hcs⟩ := h.exists_of_cons
    have hhex (width : Nat) : Follows ReadAlike
        ((hexChar? f (width + 1) cs).bind fun r => some (Escape.char r.1, r.2))
        ((hexChar? f (width + 1) cs').bind fun r => some (Escape.char r.1, r.2)) := by
      apply Follows.bindOption (hexChar?_closed width hcs)
      rintro _ _ ⟨hrest⟩
      exact .some ⟨hrest⟩
    simp only [escape?]
    split
    case h_1 => exact hhex 1
    case h_2 => exact hhex 3
    case h_3 => exact hhex 7
    case h_18 =>
      apply Follows.bindOption (boundary?_closed hcs)
      rintro _ _ ⟨hrest⟩
      exact .some ⟨hrest⟩
    case h_22 =>
      split
      · exact .some ⟨hcs⟩
      · exact .none
    -- The others are done with the character behind the backslash.
    all_goals first
      | exact .some ⟨hcs⟩
      | exact .bindSame fun _ => .some ⟨hcs⟩

end Regex.Reader
end FurthestFailure
