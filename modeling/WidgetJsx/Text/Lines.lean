/-! The lines of a text, which line breaks keep apart. A text that ends in a line break has an empty
last line. -/

namespace WidgetJsx.Text

/-- The lines of a text behind `before`, the start of the first one, backwards. -/
def linesFrom (found : List (List Char)) (before : List Char) : List Char → List (List Char)
  | [] => (before.reverse :: found).reverse
  | c :: cs =>
    if c = '\n' then linesFrom (before.reverse :: found) [] cs
    else linesFrom found (c :: before) cs

def lines (cs : List Char) : List (List Char) := linesFrom [] [] cs

def unlines (ls : List (List Char)) : List Char := ['\n'].intercalate ls

end WidgetJsx.Text
