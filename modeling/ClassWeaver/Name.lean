import ClassWeaver.Text.Alphabetic
import ClassWeaver.Text.Numeric
import ClassWeaver.Text.Search

set_option autoImplicit false

/-!
Names of Java elements. A simple name is an identifier that is no reserved word; a qualified name
joins simple names with dots.
-/

namespace ClassWeaver

inductive NameError where
  /-- The name is no identifier. -/
  | notSimple (name : String)
  /-- A part of the qualified name is no identifier. -/
  | notQualified (name : String)
  /-- A class of this name would hide a class of `java.lang`. -/
  | hidesJavaLang (name : String)
  /-- An attribute or role of the class has the name already. -/
  | takenByMember (name className : String)
  /-- The class cannot get an attribute of a name that is in use. -/
  | duplicateAttribute (name className : String)
  /-- The class has a method of this signature already. -/
  | duplicateMethod (signature className : String)
  deriving DecidableEq, Repr

def NameError.message : NameError → String
  | .notSimple name => s!"'{name}' is not a valid Java identifier"
  | .notQualified name => s!"'{name}' is not a valid qualified Java identifier"
  | .hidesJavaLang name => s!"name clash with java.lang.{name}"
  | .takenByMember name className => s!"'{name}' is already a member of class {className}"
  | .duplicateAttribute name className => s!"duplicate attribute '{name}' in class {className}"
  | .duplicateMethod signature className => s!"duplicate method '{signature}' in class {className}"

namespace Name

def reserved : List String := [
  "abstract", "assert", "boolean", "break", "byte", "case", "catch", "char", "class", "const",
  "continue", "default", "do", "double", "else", "enum", "extends", "final", "finally", "float",
  "for", "goto", "if", "implements", "import", "instanceof", "int", "interface", "long",
  "native", "new", "package", "private", "protected", "public", "return", "short", "static",
  "strictfp", "super", "switch", "synchronized", "this", "throw", "throws", "transient", "try",
  "void", "volatile", "while", "true", "false", "null", "var", "record", "yield"]

/-- Classes that every source file sees without an import. -/
def javaLang : List String := [
  "Boolean", "Byte", "Character", "Class", "ClassLoader", "Double", "Enum", "Error",
  "Exception", "Float", "Integer", "Iterable", "Long", "Math", "Number", "Object", "Override",
  "Process", "Record", "Runnable", "Runtime", "RuntimeException", "Short", "String",
  "StringBuilder", "System", "Thread", "Throwable", "Void"]

def isStart (c : Char) : Bool :=
  Text.isAlphabetic c || c == '_' || c == '$'

def isPart (c : Char) : Bool :=
  Text.isAlphabetic c || Text.isNumeric c || c == '_' || c == '$'

theorem isPart_of_isStart {c : Char} (start : isStart c = true) : isPart c = true := by
  simp only [isStart, isPart, Bool.or_eq_true] at start ⊢
  rcases start with (alphabetic | underscore) | dollar <;> simp [*]

def isSimple (name : String) : Bool :=
  match name.toList with
  | [] => false
  | c :: rest => isStart c && rest.all isPart && ! reserved.contains name

/-- Says whether a name is a sequence of simple names with dots between them. -/
def isQualified (name : String) : Bool :=
  (Text.splitWhere (· == '.') name.toList).all fun part => isSimple (String.ofList part)

def checkSimple (name : String) : Except NameError Unit :=
  if isSimple name then .ok () else .error (.notSimple name)

def checkQualified (name : String) : Except NameError Unit :=
  if isQualified name then .ok () else .error (.notQualified name)

def checkJavaLang (name : String) : Except NameError Unit :=
  if javaLang.contains name then .error (.hidesJavaLang name) else .ok ()

end Name

end ClassWeaver
