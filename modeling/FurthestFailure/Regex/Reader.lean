import FurthestFailure.Regex.Expr
import FurthestFailure.Unicode.Letters

/-! # Reading the text of a regular expression

`Expr.ofText?` accepts literals, `.`, bracketed classes with ranges, negation, nesting and the set
operations `&&`, `--` and `~~`, the classes `\d \w \s` and their negations, repetitions with their
lazy forms, groups with and without index, name and flags, alternatives, the anchors
`^ $ \A \z \b \B` and other edges of words, and the escapes of single characters.

The flags are `i` (any case), `m` (`^` and `$` at every line), `s` (`.` also matches a line feed),
`R` (carriage returns end lines too), `U` (greedy and lazy exchanged), `u` (classes of all
characters; without it of ASCII only) and `x` (blanks and comments ignored). Constructs may be
nested 250 deep.
-/
namespace FurthestFailure.Regex
set_option autoImplicit false

structure Flags where
  anyCase : Bool := false
  everyLine : Bool := false
  dotAll : Bool := false
  carriageReturns : Bool := false
  lazyFirst : Bool := false
  asciiOnly : Bool := false
  ignoreBlanks : Bool := false
  deriving DecidableEq

namespace Flags

def set (f : Flags) (value : Bool) : Char → Option Flags
  | 'i' => some { f with anyCase := value }
  | 'm' => some { f with everyLine := value }
  | 's' => some { f with dotAll := value }
  | 'R' => some { f with carriageReturns := value }
  | 'U' => some { f with lazyFirst := value }
  | 'u' => some { f with asciiOnly := !value }
  | 'x' => some { f with ignoreBlanks := value }
  | _ => none

def folded (f : Flags) (cls : CharClass) : CharClass :=
  if !f.anyCase then cls else if f.asciiOnly then cls.anyAsciiCase else cls.anyCase

/-- Nothing outside ASCII can be in a class of ASCII characters, so such a class has no complement.
-/
def negated? (f : Flags) (negated : Bool) (cls : CharClass) : Option CharClass :=
  if !negated then some cls else if f.asciiOnly then none else some cls.complement

def dot? (f : Flags) : Option CharClass :=
  if f.asciiOnly then none
  else some (if f.dotAll then .any else (CharClass.lineEnds f.carriageReturns).complement)

def start (f : Flags) : Look := if f.everyLine then .lineStart f.carriageReturns else .textStart

def stop (f : Flags) : Look := if f.everyLine then .lineEnd f.carriageReturns else .textEnd

end Flags

namespace Reader

/-- Drops blanks and comments, which run from `#` to the end of the line. -/
def dropBlanks (inComment : Bool) : List Char → List Char
  | [] => []
  | c :: cs =>
    if inComment then dropBlanks (c != '\n') cs
    else if Text.isBlank c then dropBlanks false cs
    else if c == '#' then dropBlanks true cs
    else c :: cs

def skip (f : Flags) (cs : List Char) : List Char :=
  if f.ignoreBlanks then dropBlanks false cs else cs

theorem length_dropBlanks_le (inComment : Bool) (cs : List Char) :
    (dropBlanks inComment cs).length ≤ cs.length := by
  induction cs generalizing inComment with
  | nil => simp [dropBlanks]
  | cons c cs ih =>
    rw [dropBlanks]
    split
    · exact Nat.le_succ_of_le (ih _)
    · split
      · exact Nat.le_succ_of_le (ih _)
      · split
        · exact Nat.le_succ_of_le (ih _)
        · exact Nat.le_refl _

theorem length_skip_le (f : Flags) (cs : List Char) : (skip f cs).length ≤ cs.length := by
  rw [skip]
  split
  · exact length_dropBlanks_le false cs
  · exact Nat.le_refl _

/-- The first character after blanks, to decide how to read on. Of a comment only the mark is passed
over, and its text counts. -/
def afterBlanks? (markSeen : Bool) : List Char → Option Char
  | [] => none
  | c :: cs =>
    if Text.isBlank c then afterBlanks? markSeen cs
    else if !markSeen && c == '#' then afterBlanks? true cs
    else some c

def peek? (f : Flags) (cs : List Char) : Option Char :=
  if f.ignoreBlanks then afterBlanks? false cs else cs.head?

/-- The accepted characters at the front, with blanks and comments between and after them ignored
if the flags say so, and the text after them. -/
def collect (f : Flags) (accepts : Char → Bool) (inComment : Bool) :
    List Char → List Char × List Char
  | [] => ([], [])
  | c :: cs =>
    if inComment then collect f accepts (c != '\n') cs
    else if accepts c then
      let (found, rest) := collect f accepts false cs
      (c :: found, rest)
    else if f.ignoreBlanks && Text.isBlank c then collect f accepts false cs
    else if f.ignoreBlanks && c == '#' then collect f accepts true cs
    else ([], c :: cs)

/-! ## Escapes -/

inductive Escape where
  | char (c : Char)
  | cls (cls : CharClass)
  | look (l : Look)

def hexDigit? (c : Char) : Option Nat :=
  if c.isDigit then some (c.toNat - '0'.toNat)
  else if 'a' ≤ c && c ≤ 'f' then some (c.toNat - 'a'.toNat + 10)
  else if 'A' ≤ c && c ≤ 'F' then some (c.toNat - 'A'.toNat + 10)
  else none

def charOfHex? (digits : List Char) : Option Char := do
  let n := (← digits.mapM hexDigit?).foldl (fun n d => 16 * n + d) 0
  if n.isValidChar then return Char.ofNat n else none

def hexDigits? (f : Flags) : Nat → List Char → Option (List Char × List Char)
  | 0, cs => some ([], cs)
  | count + 1, cs => do
    let c :: cs := cs | none
    let (ds, rest) ← hexDigits? f count (skip f cs)
    return (c :: ds, rest)

/-- Two digits stand for a byte, which is a character only in ASCII. -/
def hexChar? (f : Flags) (width : Nat) (cs : List Char) : Option (Char × List Char) :=
  match skip f cs with
  | '{' :: cs =>
    match collect f (hexDigit? · |>.isSome) false (skip f cs) with
    | ([], _) => none
    | (ds, '}' :: rest) => do return (← charOfHex? ds, skip f rest)
    | _ => none
  | cs => do
    let (ds, rest) ← hexDigits? f width cs
    let c ← charOfHex? ds
    if f.asciiOnly && width == 2 && 0x7F < c.toNat then none else return (c, rest)

/-- Other ASCII characters than letters, digits and angle brackets stand for themselves after a
backslash. -/
def isEscapable (c : Char) : Bool :=
  c.toNat < 0x80 && !c.isAlphanum && c != '<' && c != '>'

def wordEdge? : String → Option WordEdge
  | "start" => some .start
  | "end" => some .stop
  | "start-half" => some .startHalf
  | "end-half" => some .stopHalf
  | _ => none

/-- What follows `\b`: the name of an edge in braces, or else braces are left to be read as a
count. -/
def boundary? (f : Flags) (cs : List Char) : Option (WordEdge × List Char) :=
  match cs with
  | '{' :: more =>
    let isNameChar (c : Char) : Bool := c.isAlpha || c == '-'
    match collect f isNameChar false (skip f more), skip f more with
    | _, [] => none
    | ([], _), _ => some (.boundary, cs)
    | (name, '}' :: rest), _ => do return (← wordEdge? (String.ofList name), rest)
    | _, _ => none
  | cs => some (.boundary, cs)

def asciiRanges? : String → Option (List (Nat × Nat))
  | "alnum" => some [(0x30, 0x39), (0x41, 0x5A), (0x61, 0x7A)]
  | "alpha" => some [(0x41, 0x5A), (0x61, 0x7A)]
  | "ascii" => some [(0, 0x7F)]
  | "blank" => some [(9, 9), (0x20, 0x20)]
  | "cntrl" => some [(0, 0x1F), (0x7F, 0x7F)]
  | "digit" => some [(0x30, 0x39)]
  | "graph" => some [(0x21, 0x7E)]
  | "lower" => some [(0x61, 0x7A)]
  | "print" => some [(0x20, 0x7E)]
  | "punct" => some [(0x21, 0x2F), (0x3A, 0x40), (0x5B, 0x60), (0x7B, 0x7E)]
  | "space" => some [(9, 13), (0x20, 0x20)]
  | "upper" => some [(0x41, 0x5A)]
  | "word" => some [(0x30, 0x39), (0x41, 0x5A), (0x5F, 0x5F), (0x61, 0x7A)]
  | "xdigit" => some [(0x30, 0x39), (0x41, 0x46), (0x61, 0x66)]
  | _ => none

def shorthand (f : Flags) (all : CharClass) (ascii : String) : CharClass :=
  if f.asciiOnly then .ofRanges ((asciiRanges? ascii).getD []) else all

def escape? (f : Flags) : List Char → Option (Escape × List Char)
  | [] => none
  | c :: cs =>
    let cls (negated : Bool) (all : CharClass) (ascii : String) : Option (Escape × List Char) := do
      return (.cls (← f.negated? negated (shorthand f all ascii)), cs)
    let edge (e : WordEdge) (rest : List Char) : Option (Escape × List Char) :=
      some (.look (.word e f.asciiOnly), rest)
    match c with
    | 'x' => do let (c, rest) ← hexChar? f 2 cs; return (.char c, rest)
    | 'u' => do let (c, rest) ← hexChar? f 4 cs; return (.char c, rest)
    | 'U' => do let (c, rest) ← hexChar? f 8 cs; return (.char c, rest)
    | 'd' => cls false .digit "digit"
    | 'w' => cls false .word "word"
    | 's' => cls false .blank "space"
    | 'D' => cls true .digit "digit"
    | 'W' => cls true .word "word"
    | 'S' => cls true .blank "space"
    | 'a' => some (.char '\x07', cs)
    | 'f' => some (.char '\x0c', cs)
    | 't' => some (.char '\t', cs)
    | 'n' => some (.char '\n', cs)
    | 'r' => some (.char '\r', cs)
    | 'v' => some (.char '\x0b', cs)
    | 'A' => some (.look .textStart, cs)
    | 'z' => some (.look .textEnd, cs)
    | 'b' => do let (e, rest) ← boundary? f cs; edge e rest
    | 'B' => edge .noBoundary cs
    | '<' => edge .start cs
    | '>' => edge .stop cs
    | c => if isEscapable c then some (.char c, cs) else none

/-! ## Bracketed classes -/

/-- A named class such as `[:alpha:]` or `[:^alpha:]`, the opening bracket already read: its ranges
and whether it is negated. -/
def namedClass? : List Char → Option (Bool × CharClass × List Char)
  | ':' :: cs => do
    let (negated, cs) := match cs with | '^' :: cs => (true, cs) | cs => (false, cs)
    let name := cs.takeWhile (· != ':')
    match cs.drop name.length with
    | ':' :: ']' :: rest => return (negated, .ofRanges (← asciiRanges? (String.ofList name)), rest)
    | _ => none
  | _ => none

inductive SetOperator where
  | intersection | difference | symmetricDifference

def SetOperator.apply : SetOperator → CharClass → CharClass → CharClass
  | intersection => .inter
  | difference => .difference
  | symmetricDifference => .symmetricDifference

def setOperator? : List Char → Option (SetOperator × List Char)
  | '&' :: '&' :: cs => some (.intersection, cs)
  | '-' :: '-' :: cs => some (.difference, cs)
  | '~' :: '~' :: cs => some (.symmetricDifference, cs)
  | _ => none

/-- A class and how deep the constructs in it are nested. -/
structure NestedClass where
  cls : CharClass
  depth : Nat

/-- An open bracket: what is read of the operand at hand, and the operands before it. -/
structure OpenClass where
  negated : Bool
  operand : CharClass := .empty
  items : Nat := 0
  depth : Nat := 0
  pending : Option (NestedClass × SetOperator) := none

namespace OpenClass

def add (o : OpenClass) (cls : CharClass) (depth : Nat) : OpenClass :=
  { o with operand := o.operand.union cls, items := o.items + 1, depth := Nat.max o.depth depth }

def combined (f : Flags) (o : OpenClass) : NestedClass :=
  let right : NestedClass := ⟨f.folded o.operand, if o.items ≤ 1 then o.depth else o.depth + 1⟩
  match o.pending with
  | none => right
  | some (left, op) => ⟨op.apply (f.folded left.cls) right.cls, Nat.max left.depth right.depth + 1⟩

def operator (f : Flags) (o : OpenClass) (op : SetOperator) : OpenClass :=
  { negated := o.negated, pending := some (o.combined f, op) }

def close? (f : Flags) (o : OpenClass) : Option NestedClass := do
  let c := o.combined f
  return ⟨← f.negated? o.negated (f.folded c.cls), c.depth + 1⟩

end OpenClass

def classItem? (f : Flags) : List Char → Option (Escape × List Char)
  | [] => none
  | '\\' :: cs => escape? f cs
  | c :: cs => some (.char c, cs)

def rangeClass? (f : Flags) (low high : Char) : Option CharClass :=
  if low ≤ high && !(f.asciiOnly && 0x7F < high.toNat) then some (.between low high) else none

/-- A character, a class or a range from one character to another. A hyphen before a closing
bracket or another hyphen makes no range. -/
def classRange? (f : Flags) (cs : List Char) : Option (CharClass × List Char) := do
  let (first, rest) ← classItem? f cs
  let alone (rest : List Char) : Option (CharClass × List Char) :=
    match first with
    | .char c => do return (← rangeClass? f c c, rest)
    | .cls cls => some (cls, rest)
    | .look _ => none
  match skip f rest with
  | [] => none
  | '-' :: more =>
    if peek? f more == some ']' || peek? f more == some '-' then alone ('-' :: more)
    else
      match first, ← classItem? f (skip f more) with
      | .char low, (.char high, rest) => do return (← rangeClass? f low high, rest)
      | _, _ => none
  | rest => alone rest

/-- The number of hyphens at the front and the text after them, blanks between them ignored if the
flags say so. -/
def leadingHyphens (f : Flags) : List Char → Nat × List Char
  | '-' :: cs =>
    let (count, rest) := leadingHyphens f (skip f cs)
    (count + 1, rest)
  | cs => (0, cs)
termination_by cs => cs.length
decreasing_by exact Nat.lt_succ_of_le (length_skip_le f cs)

/-- What opens a class after its bracket: a negation, hyphens and a first closing bracket as
themselves. -/
def openClass (f : Flags) (cs : List Char) : OpenClass × List Char :=
  let (negated, cs) := match skip f cs with | '^' :: cs => (true, skip f cs) | cs => (false, cs)
  let (hyphens, cs) := leadingHyphens f cs
  if hyphens = 0 then
    match cs with
    | ']' :: rest => (({ negated } : OpenClass).add (.one ']') 0, skip f rest)
    | _ => ({ negated }, cs)
  else ({ negated, operand := .one '-', items := hyphens }, cs)

/-- Reads on inside the innermost of the open brackets until the outermost is closed. -/
def classBody? (f : Flags) :
    Nat → OpenClass → List OpenClass → List Char → Option (NestedClass × List Char)
  | 0, _, _, _ => none
  | steps + 1, o, outer, cs =>
    match skip f cs with
    | [] => none
    | '[' :: cs =>
      match namedClass? cs with
      | some (negated, cls, rest) => do
        classBody? f steps (o.add (← f.negated? negated (f.folded cls)) 0) outer rest
      | none =>
        let (inner, rest) := openClass f cs
        classBody? f steps inner (o :: outer) rest
    | ']' :: cs => do
      let closed ← o.close? f
      match outer with
      | [] => return (closed, cs)
      | p :: outer => classBody? f steps (p.add closed.cls closed.depth) outer cs
    | cs =>
      match setOperator? cs with
      | some (op, rest) => classBody? f steps (o.operator f op) outer rest
      | none => do
        let (cls, rest) ← classRange? f cs
        classBody? f steps (o.add cls 0) outer rest

def bracketed? (f : Flags) (cs : List Char) : Option (NestedClass × List Char) :=
  let (o, rest) := openClass f cs
  classBody? f (rest.length + 1) o [] rest

/-! ## Repetition counts -/

/-- A count below 2^32, blanks around it allowed. -/
def decimal? (f : Flags) (cs : List Char) : Option (Nat × List Char) :=
  let (found, rest) := collect f Char.isDigit false (cs.dropWhile Text.isBlank)
  let n := found.foldl (fun n c => 10 * n + (c.toNat - '0'.toNat)) 0
  if found.isEmpty || UInt32.size ≤ n then none else some (n, rest.dropWhile Text.isBlank)

def counts? (f : Flags) (cs : List Char) : Option (Nat × Option Nat × List Char) := do
  let (min, rest) ← decimal? f (skip f cs)
  match rest with
  | '}' :: rest => return (min, some min, skip f rest)
  | ',' :: rest =>
    match skip f rest with
    | '}' :: rest => return (min, none, skip f rest)
    | rest =>
      let (max, rest) ← decimal? f rest
      match rest with
      | '}' :: rest => if min ≤ max then return (min, some max, skip f rest) else none
      | _ => none
  | _ => none

/-! ## Groups -/

inductive GroupHead where
  | flags (f : Flags)
  | group (f : Flags) (index : Option Nat)

/-- Flags up to a colon or a closing parenthesis: each at most once, with at most one minus sign,
which does not come last. -/
def flagsHead? (seen : List Char) (f : Flags) (value : Bool) :
    List Char → Option (GroupHead × List Char)
  | [] => none
  | c :: cs =>
    if c == ':' || c == ')' then
      if seen.head? == some '-' then none
      else if c == ':' then some (.group f none, cs)
      else if seen.isEmpty then none
      else some (.flags f, cs)
    else if seen.contains c then none
    else if c == '-' then flagsHead? (c :: seen) f false cs
    else do flagsHead? (c :: seen) (← f.set value c) value cs

def isNameStart (c : Char) : Bool := c == '_' || Unicode.isLetter c

def isNameChar (c : Char) : Bool :=
  c == '_' || c == '.' || c == '[' || c == ']' || Unicode.isLetter c || Unicode.isNumber c

def groupName? (cs : List Char) : Option (String × List Char) :=
  let name := cs.takeWhile (· != '>')
  match name, cs.drop name.length with
  | first :: others, '>' :: rest =>
    if isNameStart first && others.all isNameChar then some (String.ofList name, rest) else none
  | _, _ => none

/-! ## The reader -/

/-- An expression and how deep the constructs in it are nested. -/
structure Piece where
  expr : Expr
  depth : Nat

namespace Piece

def deepest (ps : List Piece) : Nat := (ps.map depth).foldl Nat.max 0

def nest (p : Piece) (wrap : Expr → Expr) : Piece := ⟨wrap p.expr, p.depth + 1⟩

/-- Pieces put together by `join`, which is a construct of its own if there are several. -/
def joined (join : List Expr → Expr) (ps : List Piece) : Piece :=
  ⟨join (ps.map expr), if ps.length ≤ 1 then deepest ps else deepest ps + 1⟩

end Piece

/-- What is read at one place: a piece of the expression or a change of flags. -/
inductive Item where
  | piece (p : Piece)
  | flags

def Item.toPiece : Item → Piece
  | piece p => p
  | flags => ⟨.empty, 0⟩

/-- A group being read: what to restore when it closes. -/
structure OpenGroup where
  index : Option Nat
  flags : Flags
  alternatives : List Piece
  items : List Item

structure State where
  flags : Flags := {}
  outer : List OpenGroup := []
  alternatives : List Piece := []
  items : List Item := []
  groups : Nat := 0
  names : List String := []

namespace State

def push (s : State) (e : Expr) (depth : Nat) : State :=
  { s with items := .piece ⟨e, depth⟩ :: s.items }

def branch (s : State) : Piece := .joined .sequence (s.items.map Item.toPiece).reverse

def body (s : State) : Piece := .joined .choice (s.branch :: s.alternatives).reverse

def nextBranch (s : State) : State :=
  { s with alternatives := s.branch :: s.alternatives, items := [] }

def openGroup (s : State) (index : Option Nat) (inner : Flags) : State :=
  { s with flags := inner, outer := ⟨index, s.flags, s.alternatives, s.items⟩ :: s.outer,
           alternatives := [], items := [] }

def openIndexed (s : State) : State :=
  { s.openGroup (some (s.groups + 1)) s.flags with groups := s.groups + 1 }

def closeGroup? (s : State) : Option State :=
  match s.outer with
  | [] => none
  | g :: outer =>
    let p := s.body.nest (g.index.elim id Expr.group)
    some { s with flags := g.flags, outer := outer, alternatives := g.alternatives,
                  items := .piece p :: g.items }

/-- Repeats the latest item; there has to be one that is not a change of flags. -/
def repeat? (s : State) (min : Nat) (max : Option Nat) (isLazy : Bool) : Option State :=
  match s.items with
  | .piece p :: items =>
    let greedy := isLazy == s.flags.lazyFirst
    some { s with items := .piece (p.nest (·.repeating min max greedy)) :: items }
  | _ => none

def char (s : State) (c : Char) : State := s.push (.ofClass (s.flags.folded (.one c))) 0

def groupHead? (s : State) (cs : List Char) : Option (State × List Char) :=
  let named (cs : List Char) : Option (State × List Char) := do
    let (name, rest) ← groupName? cs
    if s.names.contains name then none
    else return ({ s.openIndexed with names := name :: s.names }, rest)
  match cs with
  | '?' :: 'P' :: '<' :: cs => named cs
  | '?' :: '<' :: '=' :: _ | '?' :: '<' :: '!' :: _ => none
  | '?' :: '<' :: cs => named cs
  | '?' :: cs => do
    match ← flagsHead? [] s.flags true cs with
    | (.flags f, rest) => return ({ s with flags := f, items := .flags :: s.items }, rest)
    | (.group f index, rest) => return (s.openGroup index f, rest)
  | cs => some (s.openIndexed, cs)

def lazyMark : List Char → Bool × List Char
  | '?' :: cs => (true, cs)
  | cs => (false, cs)

def step? (s : State) : List Char → Option (State × List Char)
  | [] => none
  | c :: cs =>
    let counted (min : Nat) (max : Option Nat) (cs : List Char) : Option (State × List Char) := do
      let (isLazy, rest) := lazyMark cs
      return (← s.repeat? min max isLazy, rest)
    match c with
    | '(' => s.groupHead? (skip s.flags cs)
    | ')' => do return (← s.closeGroup?, cs)
    | '|' => some (s.nextBranch, cs)
    | '[' => do
      let (c, rest) ← bracketed? s.flags cs
      return (s.push (.ofClass c.cls) c.depth, rest)
    | '?' => counted 0 (some 1) cs
    | '*' => counted 0 none cs
    | '+' => counted 1 none cs
    | '{' => do
      let (min, max, rest) ← counts? s.flags cs
      counted min max rest
    | '.' => do return (s.push (.ofClass (← s.flags.dot?)) 0, cs)
    | '^' => some (s.push (.look s.flags.start) 0, cs)
    | '$' => some (s.push (.look s.flags.stop) 0, cs)
    | '\\' => do
      let (e, rest) ← escape? s.flags cs
      match e with
      | .char c => return (s.char c, rest)
      | .cls cls => return (s.push (.ofClass cls) 0, rest)
      | .look l => return (s.push (.look l) 0, rest)
    | c => some (s.char c, cs)

/-- Every construct takes at least one character, so as many steps as characters are enough. -/
def run? : Nat → State → List Char → Option State
  | 0, s, cs => if (skip s.flags cs).isEmpty then some s else none
  | steps + 1, s, cs =>
    match skip s.flags cs with
    | [] => some s
    | cs => do
      let (s, rest) ← s.step? cs
      run? steps s rest

end State

def depthLimit : Nat := 250

end Reader

open Reader in
def Expr.ofText? (text : List Char) : Option Expr := do
  let s ← ({} : State).run? text.length text
  if s.outer.isEmpty && s.body.depth ≤ depthLimit then return s.body.expr else none

end FurthestFailure.Regex
