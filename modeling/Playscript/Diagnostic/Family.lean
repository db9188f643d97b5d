import Playscript.Diagnostic.Code

/-!
# Families of failures

Failures are sorted into families, each family inside its parent. The code of a failure to read
decides which family it belongs to.
-/

namespace Playscript

inductive Family where
  | any
  | reading
  | emptyDocument
  | identifier
  | label
  | cue
  | lineTag
  | bracketTag
  | parameter
  | blockComment
  deriving DecidableEq, Repr

namespace Family

def ofCode : Code → Family
  | .unexpectedEnd | .unrecognizedLine | .noProgress => reading
  | .emptyDocument => emptyDocument
  | .identifier => identifier
  | .label => label
  | .cue => cue
  | .lineTag => lineTag
  | .bracketTag => bracketTag
  | .parameter => parameter
  | .blockComment => blockComment

/-- The family and all those it lies in, the widest last. -/
def ancestry : Family → List Family
  | any => [any]
  | reading => [reading, any]
  | family => [family, reading, any]

end Family

end Playscript
