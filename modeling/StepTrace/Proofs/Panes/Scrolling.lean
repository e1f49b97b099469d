import StepTrace.Pane.Program
import StepTrace.Proofs.Panes.Coloring

/-!
The current line of a program is kept in sight. Whatever a frame before has left behind, the row of
the line lies in the pane, so the line is at most that far below the first one that is shown; near
the end of the program the pane is moved up until it is full, which brings the line further down but
not out of the pane.
-/

set_option autoImplicit false

namespace StepTrace

open Screen (Box Cell Line Span Style fit)

/-! ### Cells of a row -/

namespace Screen

theorem map_fit {α β : Type} (f : α → β) (n : Nat) (filler : α) (items : List α) :
    (fit n filler items).map f = fit n (f filler) (items.map f) := by
  simp [fit]

theorem fit_fit {α : Type} (n : Nat) (filler : α) (items : List α) :
    fit n filler (fit n filler items) = fit n filler items := by
  have whole := length_fit n filler items
  rw [fit, whole, Nat.sub_self, List.replicate_zero, List.append_nil, List.take_of_length_le]
  exact Nat.le_of_eq whole

theorem Line.map_glyph_cells (l : Line) (width : Nat) :
    (l.cells width).map Cell.glyph = fit width ' ' (Pane.Highlight.letters l.spans) := by
  rw [cells, map_fit, glyphs, List.map_flatMap, Pane.Highlight.letters]
  simp [Function.comp_def]

variable {b : Box}

theorem Box.map_glyph_row (wide : 2 ≤ b.width) (left right : Char) (l : Line) :
    (b.row left right (l.cells b.innerWidth)).map Cell.glyph =
      left :: fit b.innerWidth ' ' (Pane.Highlight.letters l.spans) ++ [right] := by
  obtain ⟨n, width⟩ : ∃ n, b.width = n + 2 := ⟨b.width - 2, by omega⟩
  have inner : b.innerWidth = n := by rw [innerWidth, width, Nat.add_sub_cancel]
  rw [row, width, inner]
  simp [map_fit, Line.map_glyph_cells, fit_fit]

-- The rows of a box come after its top.
theorem Box.getElem?_draw {rows : List (List Cell)} {i : Nat} {r : List Cell}
    (inside : i < b.innerHeight) (here : rows[i]? = some r) :
    (b.draw rows)[i + 1]? = some (b.row '│' '│' r) := by
  obtain ⟨n, height⟩ : ∃ n, b.height = n + 2 := by
    unfold innerHeight at inside
    exact ⟨b.height - 2, by omega⟩
  have room : i < n := by
    rw [innerHeight, height] at inside
    omega
  have few : i < rows.length := (List.getElem?_eq_some_iff.1 here).1
  rw [draw, height]
  dsimp only
  rw [List.cons_append, List.getElem?_cons_succ,
    List.getElem?_append_left (by simp [length_fit, room]), List.getElem?_map, fit,
    List.getElem?_append_left (by simp; omega), List.getElem?_take_of_lt room, here]
  rfl

end Screen

namespace Pane

theorem letters_map_cover (m : Mark) (spans : List Span) :
    Highlight.letters (spans.map m.cover) = Highlight.letters spans := by
  have same : ∀ s, (m.cover s).text = s.text := fun s => by cases m <;> rfl
  simp [Highlight.letters, List.flatMap_map, same]

theorem letters_programLine (current : Nat) (m : Mark) (line : String) (number : Nat) :
    Highlight.letters (programLine current m line number).spans =
      (lineNumber number ++ line).toList := by
  have text : Highlight.letters (Highlight.code line) = line.toList :=
    Highlight.letters_codeSpans ..
  unfold programLine
  dsimp only
  split <;> simp [letters_map_cover, text]

/-! ### Scrolling -/

theorem clampOffset_shows {offset count visible line : Nat} (before : offset ≤ line)
    (near : line < offset + visible) (there : line < count) :
    clampOffset offset count visible ≤ line ∧
      line < clampOffset offset count visible + visible := by
  unfold clampOffset
  split <;> omega

theorem clampOffset_full {count visible : Nat} (enough : visible ≤ count) (offset : Nat) :
    clampOffset offset count visible + visible ≤ count := by
  unfold clampOffset
  split <;> omega

theorem visibleRows_pos (height : Nat) : 0 < visibleRows height := by
  unfold visibleRows
  omega

namespace ProgramScroll

variable {count visible current : Nat}

-- The row of the line lies in the pane, whatever it has been before.
theorem follow_shows (s : ProgramScroll) (some : 0 < visible) (positive : 0 < current)
    (there : current ≤ count) :
    (s.follow count visible current).offset ≤ current - 1 ∧
      current - 1 < (s.follow count visible current).offset + visible := by
  rw [follow, if_pos ⟨positive, there⟩]
  exact clampOffset_shows (by omega) (by omega) (by omega)

theorem follow_full (s : ProgramScroll) (enough : visible ≤ count) (positive : 0 < current)
    (there : current ≤ count) : (s.follow count visible current).offset + visible ≤ count := by
  rw [follow, if_pos ⟨positive, there⟩]
  exact clampOffset_full enough _

end ProgramScroll

-- The lines from an offset on, with their numbers.
theorem getElem?_numbered {lines : List String} {offset visible current : Nat} {line : String}
    (positive : 0 < current) (here : lines[current - 1]? = some line)
    (above : offset ≤ current - 1) (near : current - 1 < offset + visible) :
    (((lines.zipIdx 1).drop offset).take visible)[current - 1 - offset]? =
      some (line, current) := by
  have place : offset + (current - 1 - offset) = current - 1 := by omega
  have number : 1 + (current - 1) = current := by omega
  rw [List.getElem?_take_of_lt (by omega), List.getElem?_drop, place, List.getElem?_zipIdx, here,
    Option.map_some, number]

theorem program_row {source line : String} {current height : Nat} {scroll : ProgramScroll}
    (positive : 0 < current) (here : (Text.lines source)[current - 1]? = some line)
    (high : 3 ≤ height) (width : Nat) (focused : Bool) (mark : Mark) :
    let b : Box := ⟨width, height, " Source ", borderStyle focused⟩
    let drawn := program width height focused source current mark scroll
    drawn.1.rows[current - drawn.2.offset]? =
      some (b.row '│' '│' ((programLine current mark line current).cells b.innerWidth)) := by
  intro b
  have there : current ≤ (Text.lines source).length := by
    have := (List.getElem?_eq_some_iff.1 here).1
    omega
  obtain ⟨above, near⟩ := scroll.follow_shows (visibleRows_pos height) positive there
  have inside : current - 1 -
      (scroll.follow (Text.lines source).length (visibleRows height) current).offset <
        b.innerHeight := by
    have rows : visibleRows height = b.innerHeight := Nat.max_eq_left (by omega)
    omega
  have next : ∀ offset, offset ≤ current - 1 → current - offset = current - 1 - offset + 1 := by
    omega
  rw [program]
  dsimp only
  rw [next _ above]
  refine Box.getElem?_draw inside ?_
  rw [List.getElem?_map, getElem?_numbered positive here above near]
  rfl

end Pane

open Pane

/--
Whatever a pane has been scrolled to before, and whatever its height is now, the current line is
among those that are shown then, and the pane is full if the program has enough lines. The line is
drawn with its number, as far as it fits.
-/
theorem current_line_is_shown {source : String} {current : Nat} (positive : 0 < current)
    (there : current ≤ (Text.lines source).length) (width height : Nat) (focused : Bool)
    (mark : Mark) (scroll : ProgramScroll) :
    let visible := visibleRows height
    let count := (Text.lines source).length
    let drawn := Pane.program width height focused source current mark scroll
    (drawn.2.offset ≤ current - 1 ∧ current - 1 < drawn.2.offset + visible) ∧
      (visible ≤ count → drawn.2.offset + visible ≤ count) ∧
      (2 ≤ width → 3 ≤ height → ∃ line row, (Text.lines source)[current - 1]? = some line ∧
        drawn.1.rows[current - drawn.2.offset]? = some row ∧
        row.map Cell.glyph =
          '│' :: fit (width - 2) ' ' (lineNumber current ++ line).toList ++ ['│']) := by
  intro visible count drawn
  have shows := scroll.follow_shows (visibleRows_pos height) positive there
  refine ⟨shows, fun enough => scroll.follow_full enough positive there, fun wide high => ?_⟩
  have here : (Text.lines source)[current - 1]? = some (Text.lines source)[current - 1] :=
    List.getElem?_eq_getElem (by omega)
  refine ⟨_, _, here, program_row positive here high width focused mark, ?_⟩
  rw [Box.map_glyph_row wide, letters_programLine]
  rfl

-- The last line of four, in a pane for two that has been scrolled beyond the end.
theorem current_line_is_shown_resized :
    let source := "a\nb\nc\nd\n"
    0 < 4 ∧ 4 ≤ (Text.lines source).length ∧
      (Pane.program 10 4 false source 4 .current ⟨9, some 7⟩).2.offset = 2 := by
  intro source
  have count : (Text.lines source).length = 4 := by decide +kernel
  have there : 4 ≤ (Text.lines source).length := Nat.le_of_eq count.symm
  obtain ⟨⟨above, near⟩, full, -⟩ :=
    current_line_is_shown (by decide) there 10 4 false .current ⟨9, some 7⟩
  have visible : visibleRows 4 = 2 := rfl
  rw [visible] at near full
  rw [count] at full
  exact ⟨by decide, there, by omega⟩

end StepTrace
