import StepTrace.Text.Letter

/-!
White space of the Unicode standard, and the cuts of a text that it defines: trimming, lines and
words. Then occurrences of one text in another: positions count characters; occurrences that are
counted, cut at or replaced do not overlap, the first one winning.
-/

set_option autoImplicit false

namespace StepTrace.Text

/-- Whether `c` has the property White_Space. -/
def isBlank (c : Char) : Bool :=
  let n := c.toNat
  (9 ≤ n && n ≤ 13) || n == 0x20 || n == 0x85 || n == 0xA0 || n == 0x1680 ||
    (0x2000 ≤ n && n ≤ 0x200A) || n == 0x2028 || n == 0x2029 || n == 0x202F || n == 0x205F ||
    n == 0x3000

theorem isBlank_of_isWhitespace {c : Char} (h : c.isWhitespace = true) : isBlank c = true := by
  simp only [Char.isWhitespace, Bool.or_eq_true, decide_eq_true_eq] at h
  rcases h with ((rfl | rfl) | rfl) | rfl <;> decide

/-- `cs` without the characters at its end that satisfy `p`. -/
def dropEndWhile (p : Char → Bool) (cs : List Char) : List Char :=
  (cs.reverse.dropWhile p).reverse

/-- `cs` without the characters at both ends that satisfy `p`. -/
def trimWhile (p : Char → Bool) (cs : List Char) : List Char :=
  dropEndWhile p (cs.dropWhile p)

/-- A text without the white space at its ends. -/
def trim (s : String) : String :=
  String.ofList (trimWhile isBlank s.toList)

/-- The pieces of `cs` between the characters that satisfy `p`; there is always at least one. -/
def splitAtEach (p : Char → Bool) : List Char → List (List Char)
  | [] => [[]]
  | c :: rest =>
    if p c then [] :: splitAtEach p rest
    else
      match splitAtEach p rest with
      | [] => [[c]]
      | piece :: pieces => (c :: piece) :: pieces

def dropReturn (line : List Char) : List Char :=
  match line.reverse with
  | '\r' :: kept => kept.reverse
  | _ => line

/--
The lines of a text. A newline ends a line, so none follows a newline at the very end; a carriage
return before a newline belongs to the line break.
-/
def lines (s : String) : List String :=
  let pieces := splitAtEach (· == '\n') s.toList
  let closed := pieces.dropLast.map (String.ofList ∘ dropReturn)
  match pieces.getLast? with
  | none | some [] => closed
  | some last => closed ++ [String.ofList last]

/-! ### Occurrences -/

/-- What follows `needle` at the start of `cs`. -/
def after? : (needle cs : List Char) → Option (List Char)
  | [], cs => some cs
  | _ :: _, [] => none
  | n :: needle, c :: cs => if n = c then after? needle cs else none

theorem after?_eq_some_iff {needle cs rest : List Char} :
    after? needle cs = some rest ↔ cs = needle ++ rest := by
  fun_induction after? needle cs <;> grind

/-- The first position of `needle` in `cs`. -/
def find? (needle : List Char) : List Char → Option Nat
  | [] => if needle.isEmpty then some 0 else none
  | c :: cs =>
    if (after? needle (c :: cs)).isSome then some 0 else (find? needle cs).map (· + 1)

/-- The last position of `needle` in `cs`. -/
def findLast? (needle : List Char) : List Char → Option Nat
  | [] => if needle.isEmpty then some 0 else none
  | c :: cs =>
    match findLast? needle cs with
    | some i => some (i + 1)
    | none => if (after? needle (c :: cs)).isSome then some 0 else none

/--
The pieces of `cs` between occurrences of a non-empty `needle`, after at most `limit` cuts. `piece`
is what the current piece begins with, in reverse; the fuel is the length of `cs`.
-/
def cutFrom (needle : List Char) : Nat → Option Nat → List Char → List Char → List (List Char)
  | 0, _, piece, _ => [piece.reverse]
  | fuel + 1, limit, piece, cs =>
    match cs with
    | [] => [piece.reverse]
    | c :: rest =>
      match limit, after? needle cs with
      | some 0, _ => [piece.reverse ++ cs]
      | _, some following => piece.reverse :: cutFrom needle fuel (limit.map (· - 1)) [] following
      | _, none => cutFrom needle fuel limit (c :: piece) rest

/-- The pieces of `cs` between occurrences of a non-empty `needle`, after at most `limit` cuts. -/
def cut (needle : List Char) (limit : Option Nat) (cs : List Char) : List (List Char) :=
  cutFrom needle (cs.length + 1) limit [] cs

/-- `filler` at every boundary between characters, at most `limit` times. -/
def spread (filler : List Char) : Option Nat → List Char → List Char
  | some 0, cs => cs
  | _, [] => filler
  | limit, c :: cs => filler ++ c :: spread filler (limit.map (· - 1)) cs

/-- The text with occurrences of `old` replaced, at most `limit` of them. -/
def replace (old new : List Char) (limit : Option Nat) (cs : List Char) : List Char :=
  if old.isEmpty then spread new limit cs else new.intercalate (cut old limit cs)

/-- How often `needle` occurs; the empty text occurs at every boundary. -/
def count (needle cs : List Char) : Nat :=
  if needle.isEmpty then cs.length + 1 else (cut needle none cs).length - 1

/-- The words of a text, after at most `limit` cuts; the last keeps its inner and final space. -/
def wordsFrom : Nat → Option Nat → List Char → List (List Char)
  | 0, _, _ => []
  | fuel + 1, limit, cs =>
    match cs.dropWhile isBlank with
    | [] => []
    | rest =>
      if limit = some 0 then [rest]
      else
        let word := rest.takeWhile (!isBlank ·)
        word :: wordsFrom fuel (limit.map (· - 1)) (rest.drop word.length)

/-- The words of a text, after at most `limit` cuts. -/
def words (limit : Option Nat) (cs : List Char) : List (List Char) :=
  wordsFrom (cs.length + 1) limit cs

end StepTrace.Text
