/-!
# Padding

Tables are laid out in columns of a fixed number of characters.
-/

namespace LittleLang.Text

/-- `text` with blanks after it, up to `width` characters; a longer text stays as it is. -/
def padRight (width : Nat) (text : String) : String :=
  text ++ String.ofList (List.replicate (width - text.length) ' ')

end LittleLang.Text
