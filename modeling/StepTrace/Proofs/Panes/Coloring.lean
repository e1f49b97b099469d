import StepTrace.Pane.Highlight

/-!
Spans of colored texts. A text is gone through from left to right; the characters read so far are in
spans, but for those of the span that is open. So nothing is lost wherever the text ends, between
quotes or behind a backslash too.
-/

set_option autoImplicit false

namespace StepTrace

open Screen (Span)

namespace Pane.Highlight

/-- The characters of some spans. -/
def letters (spans : List Span) : List Char := spans.flatMap fun s => s.text.toList

@[simp] theorem letters_nil : letters [] = [] := rfl

@[simp] theorem letters_cons (s : Span) (spans : List Span) :
    letters (s :: spans) = s.text.toList ++ letters spans := rfl

@[simp] theorem letters_append (spans more : List Span) :
    letters (spans ++ more) = letters spans ++ letters more := List.flatMap_append

theorem join_texts (spans : List Span) :
    String.join (spans.map Span.text) = String.ofList (letters spans) := by
  rw [← String.toList_inj, String.toList_join, List.flatMap_map, String.toList_ofList, letters]

@[simp] theorem letters_wordSpans (word : List Char) (called : Bool) :
    letters (wordSpans word called) = word.reverse := by
  cases word <;> simp [wordSpans]

@[simp] theorem letters_pieceSpans (piece : List Char) :
    letters (pieceSpans piece) = piece.reverse := by
  cases piece <;> simp [pieceSpans]

@[simp] theorem toList_quotedSpan (text : List Char) :
    (quotedSpan text).text.toList = text.reverse := by
  simp [quotedSpan]

-- What is open comes first, then what has not been read.
theorem letters_codeSpans (place : Place) (pending rest : List Char) :
    letters (codeSpans place pending rest) = pending.reverse ++ rest := by
  induction rest generalizing place pending with
  | nil => cases place <;> simp [codeSpans]
  | cons c rest ih =>
    cases place with
    | code =>
      rw [codeSpans]
      split
      next => simp
      next =>
      split
      next => simp [ih]
      next =>
      split <;> simp [ih]
    | quoted quote =>
      rw [codeSpans]
      split
      next => simp [ih]
      next => split <;> simp [ih]
    | escaped quote => simp [codeSpans, ih]

theorem letters_valueSpans (quote : Option Char) (pending rest : List Char) :
    letters (valueSpans quote pending rest) = pending.reverse ++ rest := by
  induction rest generalizing quote pending with
  | nil => cases quote <;> simp [valueSpans]
  | cons c rest ih =>
    cases quote with
    | some quote =>
      rw [valueSpans]
      split <;> simp [ih]
    | none =>
      rw [valueSpans]
      split
      next => simp [ih]
      next => split <;> simp [ih]

end Pane.Highlight

/-- The spans of a line of a program hold the line, and those of the text of a value this text. -/
theorem coloring_keeps_texts (text : String) :
    String.join ((Pane.Highlight.code text).map Span.text) = text ∧
      String.join ((Pane.Highlight.value text).map Span.text) = text := by
  constructor
  · rw [Pane.Highlight.join_texts, Pane.Highlight.code, Pane.Highlight.letters_codeSpans]
    exact String.ofList_toList
  · rw [Pane.Highlight.join_texts, Pane.Highlight.value, Pane.Highlight.letters_valueSpans]
    exact String.ofList_toList

end StepTrace
