import CircuitScan.Kind
import CircuitScan.Position
import CircuitScan.Text.Quoted

/-!
# CircuitScan.Token

A token: a piece of source text with its kind and its span. A listing shows it on one line as

```
start-stop Kind "text"
```

where the text is quoted, so it brings no line end into the listing.
-/

namespace CircuitScan

/-- A recognized piece of source text. -/
structure Token where
  kind : Kind
  text : String
  start : Position
  stop : Position
deriving DecidableEq

namespace Token

/-- The line of a token in a listing, for a given notion of printable character. -/
def renderWith (printable : Char → Bool) (t : Token) : String :=
  t.start.render ++ "-" ++ t.stop.render ++ " " ++ t.kind.name ++ " " ++
    Text.quoteWith printable t.text

/-- The line of a token in a listing. -/
def render (t : Token) : String := t.renderWith Text.isPrintable

end Token

end CircuitScan
