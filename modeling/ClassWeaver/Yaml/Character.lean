set_option autoImplicit false

/-!
Characters of YAML documents: which ones may occur, which ones end a line, and which ones are
written as they are.
-/

namespace ClassWeaver.Yaml

def isBreak (c : Char) : Bool :=
  c == '\n' || c == '\r' || c == '\u0085' || c == '\u2028' || c == '\u2029'

def isSpaceOrTab (c : Char) : Bool :=
  c == ' ' || c == '\t'

def isGap (c : Char) : Bool :=
  isSpaceOrTab c || isBreak c

def atGap : List Char → Bool
  | [] => true
  | c :: _ => isGap c

def isAllowed (c : Char) : Bool :=
  c == '\t' || c == '\n' || c == '\r' || (' ' ≤ c && c ≤ '~') || c == '\u0085'
    || ('\u00A0' ≤ c && c ≤ '\uFFFD') || '\uFFFF' < c

/-- Characters that are written as they are. Others are escaped: control characters, the byte order
mark and everything beyond the first plane. -/
def isPlainlyWritten (c : Char) : Bool :=
  c == '\n' || (' ' ≤ c && c ≤ '~') || ('\u00A0' ≤ c && c ≤ '\uFFFD' && c != '\uFEFF')

/-- Letters, digits, underscores and hyphens of ASCII, as in anchors and handles. -/
def isLabelPart (c : Char) : Bool :=
  c.isAlphanum || c == '_' || c == '-'

/-- The text with one kind of line end instead of three. Line and paragraph separators stay. -/
def normalizeBreaks : List Char → List Char
  | [] => []
  | '\r' :: '\n' :: rest => '\n' :: normalizeBreaks rest
  | c :: rest => (if c == '\r' || c == '\u0085' then '\n' else c) :: normalizeBreaks rest

end ClassWeaver.Yaml
