/-!
# Texts in columns

A table of texts is written line by line, each cell followed by spaces up to the
width of its column, the last one too, and with two spaces between columns.
-/

namespace Logbook

namespace Text

/-- A text followed by spaces up to a width in characters. -/
def pad (width : Nat) (text : String) : String :=
  text ++ String.ofList (List.replicate (width - text.length) ' ')

/-- The widths of columns, from their headings and the cells of each row. -/
def widths (headings : List String) (rows : List (List String)) : List Nat :=
  rows.foldl (fun widths row => widths.zipWith max (row.map String.length))
    (headings.map String.length)

/-- One line of cells. -/
def line (indent : String) (widths : List Nat) (cells : List String) : String :=
  indent ++ "  ".intercalate (cells.zipWith (fun cell width => pad width cell) widths) ++ "\n"

/-- The headings and the rows, each on a line. -/
def columns (indent : String) (headings : List String) (rows : List (List String)) : String :=
  let widths := widths headings rows
  String.join ((headings :: rows).map (line indent widths))

end Text

end Logbook
