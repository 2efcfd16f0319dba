import Cityscape.Hexadecimal
import Cityscape.Yaml.Cursor

/-!
# Tags and directives

A tag is a handle with a suffix, or stands whole between angle brackets; directives say what handles stand for. Tags
are bytes, one character each: a percent sign and two digits are a byte, and the bytes of one character have to come
together. A tag ends at its first zero byte.
-/

namespace Cityscape.Yaml

/-- Whether a character may stand in a tag; `marks` allows those that have a meaning in flow collections. -/
def isTagChar (marks : Bool) (c : Char) : Bool :=
  isNameChar c || ";/?:@&=+$.%!~*'()".toList.contains c || (marks && ",[]".toList.contains c)

/-- How many bytes a character has whose first byte is given. -/
def byteCount? (first : Nat) : Option Nat :=
  if first < 0x80 then some 1
  else if first < 0xc0 then none
  else if first < 0xe0 then some 2
  else if first < 0xf0 then some 3
  else if first < 0xf8 then some 4
  else none

/-- The byte of two hexadecimal digits. -/
def byte? : List Char → Option Nat
  | high :: low :: _ => hexValue? [high, low]
  | _ => none

/-- The given number of escaped bytes that go on a character. -/
def furtherBytes? : Nat → List Char → Option (List Char)
  | 0, _ => some []
  | count + 1, '%' :: text => do
    let byte ← byte? text
    if 0x80 ≤ byte ∧ byte < 0xc0 then
      return Char.ofNat byte :: (← furtherBytes? count (text.drop 2))
    else none
  | _ + 1, _ => none

/-- The bytes of a tag and how many characters they are written with. -/
def tagText? (marks : Bool) (text : List Char) : Option (List Char × Nat) :=
  match text with
  | [] => some ([], 0)
  | '%' :: rest => do
    let first ← byte? rest
    let count ← byteCount? first
    let further ← furtherBytes? (count - 1) (rest.drop 2)
    let (bytes, length) ← tagText? marks (rest.drop (3 * count - 1))
    return (Char.ofNat first :: further ++ bytes, 3 * count + length)
  | c :: rest =>
    if isTagChar marks c then do
      let (bytes, length) ← tagText? marks rest
      return (c :: bytes, length + 1)
    else some ([], 0)
termination_by text.length

/-- The text before the first zero byte. -/
def beforeZero (bytes : List Char) : String :=
  String.ofList (bytes.takeWhile (· ≠ '\x00'))

namespace Scan

/-- The bytes of a tag, at least one. -/
def tagText (marks : Bool) : Scan (List Char) := do
  match ← take (tagText? marks) with
  | [] => failure
  | bytes => return bytes

/-- An exclamation mark, the characters of a name and perhaps another mark. -/
def tagHandle : Scan (List Char) := do
  expect '!'
  let name ← takeWhile isNameChar
  if (← next) = some '!' then
    skip
    return '!' :: name ++ ['!']
  else return '!' :: name

/-- Whether a text is a handle with two marks. -/
def isFullHandle (text : List Char) : Bool :=
  1 < text.length && text.getLast? = some '!'

/-- A tag between angle brackets. -/
def verbatimTag : Scan TagName := do
  skipMany 2
  let bytes ← tagText true
  expect '>'
  return ⟨"", beforeZero bytes⟩

/-- A tag with a handle, which is a single mark unless another mark ends it. A mark alone is a whole tag. -/
def shorthandTag : Scan TagName := do
  let handle ← tagHandle
  if isFullHandle handle then
    return ⟨String.ofList handle, beforeZero (← tagText false)⟩
  else
    let suffix := beforeZero (handle.drop 1 ++ (← take (tagText? false)))
    return if suffix.isEmpty then ⟨"", "!"⟩ else ⟨"!", suffix⟩

/-- A tag; a gap has to follow it, or in a flow collection a comma. -/
def tag : Scan TagName := do
  let name ← if (← rest)[1]? = some '<' then verbatimTag else shorthandTag
  if isGap (← next) || ((← inFlow) && (← next) = some ',') then return name else failure

/-- A number of a version, which has nine digits at most. -/
def versionNumber : Scan Nat := do
  let digits ← takeWhile Char.isDigit
  if digits.isEmpty || 9 < digits.length then failure
  return digits.foldl (fun value digit ↦ 10 * value + (digit.toNat - '0'.toNat)) 0

/-- The version of the language, behind the name of its directive. -/
def versionDirective : Scan Token := do
  let _ ← takeWhile isBlank
  let major ← versionNumber
  expect '.'
  return .version major (← versionNumber)

/-- A handle and what it stands for, behind the name of their directive. -/
def tagDirective : Scan Token := do
  let _ ← takeWhile isBlank
  let handle ← tagHandle
  if !isFullHandle handle && handle ≠ ['!'] then failure
  let blanks ← takeWhile isBlank
  if blanks.isEmpty then failure
  let meaning ← tagText true
  if !isGap (← next) then failure
  return .tagHandle (String.ofList handle) (beforeZero meaning)

/-- A directive and the end of its line. -/
def directive : Scan Token := do
  expect '%'
  let name ← takeWhile isNameChar
  if !isGap (← next) then failure
  let token ← match String.ofList name with
    | "YAML" => versionDirective
    | "TAG" => tagDirective
    | _ => failure
  skipLineEnd
  return token

end Scan

end Cityscape.Yaml
