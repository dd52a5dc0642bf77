import ClassWeaver.Yaml.BlockScalar
import ClassWeaver.Yaml.Token

set_option autoImplicit false

/-!
What may be said about a node or a document besides its content: names for nodes, tags, and
directives, which give the version and the meaning of tag handles.
-/

namespace ClassWeaver.Yaml.Property

def label (text : List Char) : List Char × List Char :=
  (text.takeWhile isLabelPart, text.dropWhile isLabelPart)

private def skipBlanks (text : List Char) : List Char :=
  text.dropWhile isSpaceOrTab

private def smallNumber? (text : List Char) : Option (Nat × List Char) :=
  let digits := text.takeWhile Char.isDigit
  if 9 < digits.length then none
  else (Resolution.number? 10 digits).map (·, text.dropWhile Char.isDigit)

private def version? (text : List Char) : Option (Token × List Char) := do
  let (major, rest) ← smallNumber? (skipBlanks text)
  match rest with
  | '.' :: rest =>
    let (minor, rest) ← smallNumber? rest
    return (.versionDirective major minor, rest)
  | _ => none

private def isTagPart (verbatim : Bool) (c : Char) : Bool :=
  isLabelPart c || (";/?:@&=+$.!~*'()".toList).contains c
    || verbatim && (c == ',' || c == '[' || c == ']')

private def percentByte? : List Char → Option (Nat × List Char)
  | '%' :: high :: low :: rest => (Resolution.number? 16 [high, low]).map (·, rest)
  | _ => none

private def following? (byte : Nat) : Option Nat :=
  if byte < 0x80 then some 0
  else if 0xC0 ≤ byte && byte < 0xE0 then some 1
  else if 0xE0 ≤ byte && byte < 0xF0 then some 2
  else if 0xF0 ≤ byte && byte < 0xF8 then some 3
  else none

private def percentTail? : Nat → List Char → Option (List Nat × List Char)
  | 0, text => some ([], text)
  | count + 1, text => do
    let (byte, rest) ← percentByte? text
    if byte / 0x40 != 2 then none
    else
      let (bytes, rest) ← percentTail? count rest
      return (byte :: bytes, rest)

private def percentChar? (text : List Char) : Option (Char × List Char) := do
  let (first, rest) ← percentByte? text
  let count ← following? first
  let (tail, rest) ← percentTail? count rest
  let lead := if count == 0 then first else first % Nat.pow 2 (6 - count)
  let code := tail.foldl (fun code byte => code * 0x40 + byte % 0x40) lead
  if code.isValidChar then return (Char.ofNat code, rest) else none

private def tagText? (verbatim : Bool) : Nat → List Char → Option (List Char × List Char)
  | 0, text => some ([], text)
  | fuel + 1, text =>
    match text with
    | [] => some ([], [])
    | c :: rest =>
      if c == '%' then do
        let (c, rest) ← percentChar? text
        let (chars, rest) ← tagText? verbatim fuel rest
        return (c :: chars, rest)
      else if isTagPart verbatim c then
        (tagText? verbatim fuel rest).map (Prod.map (c :: ·) id)
      else some ([], text)

private def tagHandle? (text : List Char) : Option (List Char × List Char) :=
  match text with
  | '!' :: rest =>
    let (name, rest) := label rest
    match rest with
    | '!' :: rest => some ('!' :: name ++ ['!'], rest)
    | _ => some ('!' :: name, rest)
  | _ => none

private def tagDirective? (text : List Char) : Option (Token × List Char) := do
  let (handle, rest) ← tagHandle? (skipBlanks text)
  if handle != ['!'] && handle.getLast? != some '!' then none
  else if ! rest.head?.any isSpaceOrTab then none
  else
    let rest := skipBlanks rest
    let (start, rest) ← tagText? true rest.length rest
    if start.isEmpty || ! atGap rest then none
    else return (.tagDirective (String.ofList handle) (String.ofList start), rest)

def name? (text : List Char) : Option (String × List Char) :=
  let (name, rest) := label text
  let closing := "?:,]\x7d%@".toList ++ [Char.ofNat 96]
  let ends := atGap rest || rest.head?.any closing.contains
  if name.isEmpty || ! ends then none else some (String.ofList name, rest)

def tagToken? (text : List Char) : Option (Token × List Char) := do
  match text with
  | '<' :: rest =>
    let (suffix, rest) ← tagText? true rest.length rest
    match rest with
    | '>' :: rest => if suffix.isEmpty then none else return (.tag "" (String.ofList suffix), rest)
    | _ => none
  | _ =>
    let (handle, rest) ← tagHandle? ('!' :: text)
    let (suffix, rest) ← tagText? false rest.length rest
    if 1 < handle.length && handle.getLast? == some '!' then
      if suffix.isEmpty then none
      else return (.tag (String.ofList handle) (String.ofList suffix), rest)
    else
      let suffix := handle.drop 1 ++ suffix
      return (if suffix.isEmpty then .tag "" "!" else .tag "!" (String.ofList suffix), rest)

def directive? (text : List Char) : Option (Token × List Char) := do
  let (name, rest) := label text
  if name.isEmpty || ! atGap rest then none
  else
    let (token, rest) ←
      if name == "YAML".toList then version? rest
      else if name == "TAG".toList then tagDirective? rest
      else none
    return (token, ← BlockScalar.afterComment? rest)

end ClassWeaver.Yaml.Property
